import RowFilter.Text.Character
import RowFilter.Token.Lexeme

/-!
# Token streams

A text is cut into tokens from left to right; blanks between them are skipped. The stream of a text
ends at the place where nothing but the end of the text follows.
-/

set_option autoImplicit false

namespace RowFilter

/-- A place in a text, with the text that follows it. -/
structure Cursor where
  position : Position
  rest : List Char
  deriving DecidableEq, Repr

/-- The tokens of a text and the place of its end. -/
structure TokenStream where
  tokens : List Token
  stop : Position
  deriving DecidableEq

/-- The token that stands for the end of a text. -/
def Token.atEnd (position : Position) : Token :=
  ⟨.eof, "", position⟩

namespace Cursor

/-- The beginning of a text. -/
def ofText (text : String) : Cursor :=
  ⟨Position.start, text.toList⟩

/-- The cursor after the blanks that it stands on. -/
def skipBlanks (cursor : Cursor) : Cursor :=
  ⟨cursor.position.advance (cursor.rest.takeWhile Text.isBlank),
    cursor.rest.dropWhile Text.isBlank⟩

/-- The token of a lexeme at a place. -/
def token (position : Position) (lexeme : Lexeme) : Token :=
  ⟨lexeme.kind, String.ofList lexeme.text, position⟩

/-- The cursor after a lexeme. -/
def after (position : Position) (lexeme : Lexeme) : Cursor :=
  ⟨position.advance lexeme.text, lexeme.rest⟩

/-- The next token and the cursor after it; at the end of the text it is the end token, again and
again. -/
def next (cursor : Cursor) : Token × Cursor :=
  let here := cursor.skipBlanks
  match here.rest with
  | [] => (Token.atEnd here.position, here)
  | c :: cs =>
    let lexeme := Lexeme.scan c cs
    (token here.position lexeme, after here.position lexeme)

/-- Skipping blanks adds no characters. -/
theorem length_skipBlanks_le (cursor : Cursor) :
    cursor.skipBlanks.rest.length ≤ cursor.rest.length :=
  (List.dropWhile_suffix _).length_le

/-- The text after the first lexeme is shorter than the text with the blanks before it. -/
theorem length_rest_lt {cursor : Cursor} {c : Char} {cs : List Char}
    (h : cursor.skipBlanks.rest = c :: cs) :
    (Lexeme.scan c cs).rest.length < cursor.rest.length := by
  have hscan := Lexeme.length_scan_rest_lt c cs
  have hskip := cursor.length_skipBlanks_le
  rw [h] at hskip
  exact Nat.lt_of_lt_of_le hscan hskip

/-- All the tokens from the cursor on. -/
def stream (cursor : Cursor) : TokenStream :=
  match h : cursor.skipBlanks.rest with
  | [] => ⟨[], cursor.skipBlanks.position⟩
  | c :: cs =>
    have := length_rest_lt h
    let lexeme := Lexeme.scan c cs
    let more := (after cursor.skipBlanks.position lexeme).stream
    ⟨token cursor.skipBlanks.position lexeme :: more.tokens, more.stop⟩
termination_by cursor.rest.length
decreasing_by assumption

/-- The stream from a place before blanks and the end of the text is empty. -/
theorem stream_of_nil {cursor : Cursor} (h : cursor.skipBlanks.rest = []) :
    cursor.stream = ⟨[], cursor.skipBlanks.position⟩ := by
  rw [stream]
  split
  · rfl
  · rename_i heq
    simp [h] at heq

/-- The stream from a place before blanks and a lexeme is its token and the stream after it. -/
theorem stream_of_cons {cursor : Cursor} {c : Char} {cs : List Char}
    (h : cursor.skipBlanks.rest = c :: cs) :
    cursor.stream =
      ⟨token cursor.skipBlanks.position (Lexeme.scan c cs) ::
          (after cursor.skipBlanks.position (Lexeme.scan c cs)).stream.tokens,
        (after cursor.skipBlanks.position (Lexeme.scan c cs)).stream.stop⟩ := by
  rw [stream]
  split
  · rename_i heq
    simp [h] at heq
  · rename_i heq
    rw [h] at heq
    cases heq
    rfl

/-- The cursor after all the tokens. -/
def last (cursor : Cursor) : Cursor :=
  ⟨cursor.stream.stop, []⟩

end Cursor

namespace TokenStream

/-- The tokens of a text. -/
def ofText (text : String) : TokenStream :=
  (Cursor.ofText text).stream

/-- The first invalid token. -/
def firstInvalid? (s : TokenStream) : Option (LexicalError × Position) :=
  s.tokens.findSome? fun t => t.kind.error?.map fun e => (e, t.position)

/-- The tokens with the end token after them. -/
def withEnd (s : TokenStream) : List Token :=
  s.tokens ++ [Token.atEnd s.stop]

end TokenStream

end RowFilter
