import RowFilter.Text.Character
import RowFilter.Token.Basic

/-!
# Lexemes

A lexeme is the token at the front of a text: its kind, the characters that it takes, and the text
that is left. The main statement is that every lexeme takes at least one character and that its
characters followed by the text that is left are the text it was cut from.
-/

set_option autoImplicit false

namespace RowFilter

/-- The first token of a text, and the text after it. -/
structure Lexeme where
  kind : Kind
  text : List Char
  rest : List Char
  deriving DecidableEq

/-- What stands between quotes: the characters after the opening quote, whether a closing quote
follows them, and the text after that. -/
structure Enclosed where
  body : List Char
  closed : Bool
  rest : List Char
  deriving DecidableEq, Repr

namespace Enclosed

/-- Puts characters in front of the body. -/
def prepend (cs : List Char) (e : Enclosed) : Enclosed :=
  ⟨cs ++ e.body, e.closed, e.rest⟩

/-- The characters from the opening quote on. -/
def text (quote : Char) (e : Enclosed) : List Char :=
  quote :: e.body ++ bif e.closed then [quote] else []

/-- The body of a string: a backslash takes the next character with it, whatever it is, and a line
feed ends the body before it is closed. -/
def ofString : List Char → Enclosed
  | [] => ⟨[], false, []⟩
  | '\'' :: cs => ⟨[], true, cs⟩
  | '\n' :: cs => ⟨[], false, '\n' :: cs⟩
  | '\\' :: c :: cs => (ofString cs).prepend ['\\', c]
  | c :: cs => (ofString cs).prepend [c]

/-- The body of a quoted name: it ends before the next double quote or line feed. -/
def ofName (cs : List Char) : Enclosed :=
  let body := cs.takeWhile fun c => c != '"' && c != '\n'
  match cs.dropWhile fun c => c != '"' && c != '\n' with
  | '"' :: rest => ⟨body, true, rest⟩
  | rest => ⟨body, false, rest⟩

end Enclosed

namespace Lexeme

/-- The lexeme after a single quote. -/
def string (cs : List Char) : Lexeme :=
  let e := Enclosed.ofString cs
  ⟨if e.closed then .string (String.ofList e.body) else .invalid .unterminatedString,
    e.text '\'', e.rest⟩

/-- The lexeme after a double quote. -/
def quotedName (cs : List Char) : Lexeme :=
  let e := Enclosed.ofName cs
  ⟨if e.closed then .quotedName (String.ofList e.body) else .invalid .unterminatedName,
    e.text '"', e.rest⟩

/-- The digits after a point, if the text begins with a point and a digit. -/
def fractionDigits : List Char → List Char
  | '.' :: cs => cs.takeWhile Char.isDigit
  | _ => []

/-- The kind of an integer; `text` is its text with the sign. -/
def integerKind (negative : Bool) (text digits : List Char) : Kind :=
  let value := Text.signed negative (Text.digitsValue digits)
  if Text.fitsInt64 value then .integer (Int64.ofInt value)
  else .invalid (.integerRange (String.ofList text))

/-- The lexeme of a number: its sign, if it has one, the digits that follow, and a point with more
digits if a digit follows the point. A decimal is taken from its digits at once. Reading its text as
a decimal has an error branch too, which is left out here: `NumberText.ofText_text` shows that the
text is always read, and as this decimal, as long as the places can be counted in 64 bits. -/
def number (sign cs : List Char) : Lexeme :=
  let whole := cs.takeWhile Char.isDigit
  let after := cs.dropWhile Char.isDigit
  let fraction := fractionDigits after
  let negative := sign == ['-']
  if fraction.isEmpty then
    ⟨integerKind negative (sign ++ whole) whole, sign ++ whole, after⟩
  else
    ⟨.decimal ⟨Text.signed negative (Text.digitsValue (whole ++ fraction)), fraction.length⟩,
      sign ++ whole ++ '.' :: fraction, (after.drop 1).dropWhile Char.isDigit⟩

/-- The kind of a word. -/
def wordKind (word : List Char) : Kind :=
  match Keyword.ofWord? word with
  | some k => .keyword k
  | none => .word (String.ofList word)

/-- The lexeme of a word that begins with `c`. -/
def word (c : Char) (cs : List Char) : Lexeme :=
  let name := c :: cs.takeWhile Text.isWordChar
  ⟨wordKind name, name, cs.dropWhile Text.isWordChar⟩

/-- The signs of two characters. -/
def pairKind? : Char → Char → Option Kind
  | '=', '=' => some (.comparison .equal)
  | '!', '=' => some (.comparison .notEqual)
  | '<', '>' => some (.comparison .notEqual)
  | '<', '=' => some (.comparison .lessOrEqual)
  | '>', '=' => some (.comparison .greaterOrEqual)
  | _, _ => none

/-- The signs of one character; any other character is invalid. -/
def signKind : Char → Kind
  | '=' => .comparison .equal
  | '<' => .comparison .less
  | '>' => .comparison .greater
  | ',' => .comma
  | '.' => .dot
  | '(' => .leftParen
  | ')' => .rightParen
  | c => .invalid (.strayCharacter c)

/-- The lexeme of a sign that begins with `c`: of two characters if there is such a sign. -/
def sign (c : Char) : List Char → Lexeme
  | [] => ⟨signKind c, [c], []⟩
  | d :: cs =>
    match pairKind? c d with
    | some kind => ⟨kind, [c, d], cs⟩
    | none => ⟨signKind c, [c], d :: cs⟩

/-- The text begins with a digit. -/
def beginsWithDigit : List Char → Bool
  | [] => false
  | c :: _ => c.isDigit

/-- The lexeme at the front of a text that begins with `c`, which is no blank. A sign belongs to a
number only if a digit follows it directly. -/
def scan (c : Char) (cs : List Char) : Lexeme :=
  if c = '\'' then string cs
  else if c = '"' then quotedName cs
  else if c.isDigit then number [] (c :: cs)
  else if (c = '-' || c = '+') && beginsWithDigit cs then number [c] cs
  else if Text.isWordStart c then word c cs
  else sign c cs

end Lexeme

/-- The body of a string with its closing quote and the text after it is the whole text. -/
theorem Enclosed.ofString_append (cs : List Char) :
    (ofString cs).body ++ (bif (ofString cs).closed then ['\''] else []) ++ (ofString cs).rest =
      cs := by
  fun_induction ofString cs with
  | case1 => rfl
  | case2 => rfl
  | case3 => rfl
  | case4 c cs ih => simpa [prepend] using ih
  | case5 c cs _ _ _ ih => simpa [prepend] using ih

/-- The body of a quoted name with its closing quote and the text after it is the whole text. -/
theorem Enclosed.ofName_append (cs : List Char) :
    (ofName cs).body ++ (bif (ofName cs).closed then ['"'] else []) ++ (ofName cs).rest = cs := by
  have h := List.takeWhile_append_dropWhile (p := fun c => c != '"' && c != '\n') (l := cs)
  unfold ofName
  split
  · rename_i rest heq
    rw [heq] at h
    simpa using h
  · simp

namespace Lexeme

/-- A point with the digits after it is cut from the front of its text. -/
theorem fractionDigits_append {cs : List Char} (h : fractionDigits cs ≠ []) :
    '.' :: fractionDigits cs ++ (cs.drop 1).dropWhile Char.isDigit = cs := by
  unfold fractionDigits at h ⊢
  split at h
  · simp
  · contradiction

/-- The text of a number begins with its sign and the digits after it. -/
theorem number_text (sign cs : List Char) :
    ∃ more, (number sign cs).text = sign ++ cs.takeWhile Char.isDigit ++ more := by
  by_cases h : (fractionDigits (cs.dropWhile Char.isDigit)).isEmpty = true
  · exact ⟨[], by simp [number, h]⟩
  · exact ⟨_, by simp only [number, h]; rfl⟩

/-- The text of a number and what is left after it are the characters that were there. -/
theorem number_append (sign cs : List Char) :
    (number sign cs).text ++ (number sign cs).rest = sign ++ cs := by
  have happ := List.takeWhile_append_dropWhile (p := Char.isDigit) (l := cs)
  by_cases h : (fractionDigits (cs.dropWhile Char.isDigit)).isEmpty = true
  · simp [number, h]
  · have hfraction := fractionDigits_append (mt List.isEmpty_iff.mpr h)
    simp only [number, h, Bool.false_eq_true, if_false]
    rw [List.append_assoc, hfraction, List.append_assoc, happ]

/-- The text of a sign and what is left after it are the characters that were there. -/
theorem sign_append (c : Char) (cs : List Char) :
    (sign c cs).text ++ (sign c cs).rest = c :: cs := by
  unfold sign
  split
  · rfl
  · split <;> rfl

/-- No character is lost: the lexeme and the text after it are the text it was cut from. -/
theorem scan_append (c : Char) (cs : List Char) :
    (scan c cs).text ++ (scan c cs).rest = c :: cs := by
  unfold scan
  split
  · rename_i h
    simpa [string, Enclosed.text, h] using Enclosed.ofString_append cs
  · split
    · rename_i h
      simpa [quotedName, Enclosed.text, h] using Enclosed.ofName_append cs
    · split
      · exact number_append [] (c :: cs)
      · split
        · exact number_append [c] cs
        · split
          · simp [word]
          · exact sign_append c cs

/-- A lexeme takes at least one character, so scanning comes to an end. -/
theorem scan_text_ne_nil (c : Char) (cs : List Char) : (scan c cs).text ≠ [] := by
  unfold scan
  split
  · simp [string, Enclosed.text]
  · split
    · simp [quotedName, Enclosed.text]
    · split
      · rename_i h
        obtain ⟨more, htext⟩ := number_text [] (c :: cs)
        simp [htext, h]
      · split
        · obtain ⟨more, htext⟩ := number_text [c] cs
          simp [htext]
        · split
          · simp [word]
          · unfold sign
            split
            · simp
            · split <;> simp

/-- The text after a lexeme is shorter than the text it was cut from. -/
theorem length_scan_rest_lt (c : Char) (cs : List Char) :
    (scan c cs).rest.length < (c :: cs).length := by
  have happ := congrArg List.length (scan_append c cs)
  have hpos := List.length_pos_iff.mpr (scan_text_ne_nil c cs)
  simp only [List.length_append] at happ
  omega

end Lexeme

end RowFilter
