/-!
# Written forms

How the parts of a filter are put into text and taken out of it again: lists with a separator, names
with dots, decimal digits, and text in single quotes.
-/

set_option autoImplicit false

namespace RowFilter.Text

/-! ## Joined text -/

/-- The parts with the separator between neighbours. -/
def join (separator : String) : List String → String
  | [] => ""
  | [part] => part
  | part :: next :: parts => part ++ separator ++ join separator (next :: parts)

/-! ## Segments of a dotted name

A name falls into segments at its dots; the empty name has one empty segment.
-/

/-- Puts a character in front of the first segment. -/
def consFirst (c : Char) : List (List Char) → List (List Char)
  | [] => [[c]]
  | s :: ss => (c :: s) :: ss

/-- The parts of a name between its dots. -/
def segments : List Char → List (List Char)
  | [] => [[]]
  | c :: cs => if c = '.' then [] :: segments cs else consFirst c (segments cs)

/-! ## Decimal digits

Numbers are read from runs of ASCII digits and written in the usual signed decimal form.
-/

/-- The number that a run of digits denotes; leading zeros do not count. -/
def digitsValue (digits : List Char) : Nat :=
  Nat.ofDigitChars 10 digits 0

/-- The digits of a number, without leading zeros; zero has the one digit `0`. -/
def natDigits (n : Nat) : List Char :=
  Nat.toDigits 10 n

/-- The minus sign of a negative number; nothing for the others. -/
def minusSign (n : Int) : List Char :=
  if n < 0 then ['-'] else []

/-- The signed decimal text of an integer. -/
def intText (n : Int) : String :=
  String.ofList (minusSign n ++ natDigits n.natAbs)

/-- A number with a minus sign if asked for. -/
def signed (negative : Bool) (n : Nat) : Int :=
  if negative then -(n : Int) else n

/-- The number can be held in 64 bits with a sign. -/
def fitsInt64 (n : Int) : Bool :=
  Int64.minValue.toInt ≤ n && n ≤ Int64.maxValue.toInt

/-- The digits of a number denote it. -/
theorem digitsValue_natDigits (n : Nat) : digitsValue (natDigits n) = n :=
  Nat.ofDigitChars_toDigits (by decide) (by decide)

/-! ## Single-quoted text

Inside single quotes a backslash escapes the character after it. Writing escapes the quote and the
backslash, and the percent sign too where it would be a wildcard. Reading resolves these three
escapes and keeps any other backslash as it stands.
-/

/-- The character has to be escaped; a percent sign only where wildcards are read. -/
def needsEscape (wildcards : Bool) (c : Char) : Bool :=
  c == '\\' || c == '\'' || (wildcards && c == '%')

/-- Escapes what would not stand for itself inside single quotes. -/
def escape (wildcards : Bool) (cs : List Char) : List Char :=
  cs.flatMap fun c => if needsEscape wildcards c then ['\\', c] else [c]

/-- What a backslash followed by the character stands for: the character itself if it is a quote,
a backslash or a percent sign, and both characters otherwise. -/
def resolve (c : Char) : List Char :=
  if needsEscape true c then [c] else ['\\', c]

/-- Resolves the escapes of a quoted body; a backslash that ends it stands for itself. -/
def unescape : List Char → List Char
  | [] => []
  | '\\' :: c :: cs => resolve c ++ unescape cs
  | c :: cs => c :: unescape cs

/-- The text in single quotes. -/
def quote (text : String) : String :=
  String.ofList (['\''] ++ escape false text.toList ++ ['\''])

/-- Unescaping undoes escaping, whether percent signs were escaped or not. -/
theorem unescape_escape (wildcards : Bool) (cs : List Char) :
    unescape (escape wildcards cs) = cs := by
  induction cs with
  | nil => rfl
  | cons c cs ih =>
    simp only [escape, List.flatMap_cons] at ih ⊢
    by_cases h : needsEscape wildcards c = true
    · have hr : needsEscape true c = true := by
        revert h; cases wildcards <;> simp +contextual [needsEscape]
      simp [h, unescape, resolve, hr, ih]
    · have hc : c ≠ '\\' := by
        intro hc; simp [hc, needsEscape] at h
      simp [h, unescape, hc, ih]

end RowFilter.Text
