import RowFilter.Token.Lexeme

/-!
# Bodies of strings

What may stand between single quotes is told without a scanner: units in a row, each of them a
backslash with any character after it, or one character that is no backslash, no quote and no line
feed. The scanner closes a string exactly where a body is followed by a quote. At the end of a body
no backslash is left without its partner.
-/

set_option autoImplicit false

namespace RowFilter

namespace Text

/-- The characters are units in a row. -/
inductive StringBody : List Char → Prop
  | nil : StringBody []
  /-- A backslash takes the next character with it, a quote or a line feed too. -/
  | escape (c : Char) {cs : List Char} (h : StringBody cs) : StringBody ('\\' :: c :: cs)
  | char {c : Char} {cs : List Char} (hbackslash : c ≠ '\\') (hquote : c ≠ '\'')
    (hlineFeed : c ≠ '\n') (h : StringBody cs) : StringBody (c :: cs)

/-- Where no rule for a backslash applies there is none. -/
theorem ne_backslash {c : Char} {cs : List Char} (hlast : c = '\\' → cs = [] → False)
    (hescape : ∀ d ds, c = '\\' → cs = d :: ds → False) : c ≠ '\\' := by
  intro hc
  cases cs with
  | nil => exact hlast hc rfl
  | cons d ds => exact hescape d ds hc rfl

end Text

namespace Enclosed

open RowFilter.Text

/-- A body goes into the body of the string, whatever stands after it. -/
theorem ofString_append_of_stringBody {body : List Char} (h : StringBody body) (cs : List Char) :
    ofString (body ++ cs) = (ofString cs).prepend body := by
  induction h with
  | nil => rfl
  | @escape c body _ ih =>
    show (ofString (body ++ cs)).prepend ['\\', c] = _
    rw [ih]
    simp [prepend]
  | @char c body hbackslash hquote hlineFeed _ ih =>
    rw [List.cons_append, ofString, ih]
    · simp [prepend]
    · exact hquote
    · exact hlineFeed
    · intro d ds hd
      exact absurd hd hbackslash

/-- A body is taken up to the quote after it, whatever follows. -/
theorem ofString_stringBody {body : List Char} (h : StringBody body) (rest : List Char) :
    ofString (body ++ '\'' :: rest) = ⟨body, true, rest⟩ := by
  rw [ofString_append_of_stringBody h, ofString, prepend, List.append_nil]

/-- What the scanner closes is a body. -/
theorem stringBody_of_closed {cs : List Char} (h : (ofString cs).closed = true) :
    StringBody (ofString cs).body := by
  fun_induction ofString cs with
  | case1 => contradiction
  | case2 cs => exact .nil
  | case3 cs => contradiction
  | case4 c cs ih => exact .escape c (ih h)
  | case5 c cs hquote hlineFeed hescape ih =>
    have hlast : c = '\\' → cs = [] → False := by
      -- the text ends after this backslash, so the body is not closed
      rintro - rfl
      contradiction
    have hbackslash := ne_backslash hlast hescape
    exact .char hbackslash hquote hlineFeed (ih h)

/-- The scanner closes a string exactly where a body is followed by a quote. -/
theorem ofString_closed_iff {cs : List Char} :
    (ofString cs).closed = true ↔ ∃ body rest, cs = body ++ '\'' :: rest ∧ StringBody body := by
  constructor
  · intro h
    have hsplit := ofString_append cs
    rw [h, cond_true, List.append_assoc] at hsplit
    exact ⟨_, _, hsplit.symm, stringBody_of_closed h⟩
  · rintro ⟨body, rest, rfl, hbody⟩
    rw [ofString_stringBody hbody]

end Enclosed

namespace Text

/-- The body of a string and the text after it are told from the text after the opening quote. -/
theorem StringBody.unique {body body' rest rest' : List Char} (h : StringBody body)
    (h' : StringBody body') (heq : body ++ '\'' :: rest = body' ++ '\'' :: rest') :
    body = body' ∧ rest = rest' := by
  have hscan := Enclosed.ofString_stringBody h rest
  rw [heq, Enclosed.ofString_stringBody h'] at hscan
  cases hscan
  exact ⟨rfl, rfl⟩

/-! ## Backslashes at the end -/

/-- The number of backslashes at the end. -/
def backslashes (cs : List Char) : Nat :=
  (cs.reverse.takeWhile (· == '\\')).length

/-- No more backslashes stand at the end than there are characters. -/
theorem backslashes_le (cs : List Char) : backslashes cs ≤ cs.length := by
  have hle := (List.takeWhile_sublist (l := cs.reverse) (· == '\\')).length_le
  rwa [List.length_reverse] at hle

/-- A character in front counts only if nothing but backslashes stands after it. -/
theorem backslashes_cons (c : Char) (cs : List Char) :
    backslashes (c :: cs) =
      if backslashes cs = cs.length then cs.length + (if c = '\\' then 1 else 0)
      else backslashes cs := by
  rw [backslashes, List.reverse_cons, List.takeWhile_append, List.length_reverse]
  by_cases hall : (cs.reverse.takeWhile (· == '\\')).length = cs.length
  · rw [if_pos hall, backslashes, if_pos hall]
    by_cases hc : c = '\\' <;> simp [hc]
  · rw [if_neg hall, backslashes, if_neg hall]

/-- The last backslash escapes nothing: those at the end are odd in number. -/
def EndsUnpaired (cs : List Char) : Prop :=
  backslashes cs % 2 = 1

/-- The empty text does not end in an unpaired backslash. -/
theorem not_endsUnpaired_nil : ¬ EndsUnpaired [] := by
  unfold EndsUnpaired
  decide

/-- A backslash with its partner does not change how the characters after it end. -/
theorem endsUnpaired_escape (c : Char) (cs : List Char) :
    EndsUnpaired ('\\' :: c :: cs) ↔ EndsUnpaired cs := by
  have hle := backslashes_le cs
  rw [EndsUnpaired, EndsUnpaired, backslashes_cons, backslashes_cons, List.length_cons]
  by_cases hall : backslashes cs = cs.length
  · by_cases hc : c = '\\'
    · simp only [hall, hc, if_true]
      omega
    · simp [hall, hc]
  · rw [if_neg hall, if_neg (by omega)]

/-- A character other than a backslash in front does not change how a text ends. -/
theorem endsUnpaired_cons {c : Char} (h : c ≠ '\\') (cs : List Char) :
    EndsUnpaired (c :: cs) ↔ EndsUnpaired cs := by
  rw [EndsUnpaired, EndsUnpaired, backslashes_cons, if_neg h, Nat.add_zero]
  by_cases hall : backslashes cs = cs.length
  · rw [if_pos hall, hall]
  · rw [if_neg hall]

/-- In a body every backslash has a partner. -/
theorem StringBody.not_endsUnpaired {body : List Char} (h : StringBody body) :
    ¬ EndsUnpaired body := by
  induction h with
  | nil => exact not_endsUnpaired_nil
  | escape c _ ih => rwa [endsUnpaired_escape]
  | char hbackslash _ _ _ ih => rwa [endsUnpaired_cons hbackslash]

end Text

end RowFilter
