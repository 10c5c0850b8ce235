import RowFilter.Text.Written

/-!
# Patterns

The text after `LIKE` may end in one wildcard, a percent sign that is not escaped. Without the
wildcard the pattern asks for equality, with it for the beginning of the text. A wildcard at any
other place has no meaning.
-/

set_option autoImplicit false

namespace RowFilter

/-- What a pattern asks of a text. -/
inductive Pattern where
  /-- The text is exactly this one. -/
  | equals (value : String)
  /-- The text begins with this one. -/
  | startsWith (stem : String)
  deriving DecidableEq, Repr

namespace Pattern

/-- Puts characters in front of the text of a pattern. -/
def prepend (cs : List Char) : Pattern → Pattern
  | equals value => equals (String.ofList cs ++ value)
  | startsWith stem => startsWith (String.ofList cs ++ stem)

/-- Putting nothing in front of a pattern leaves it as it is. -/
theorem prepend_nil (p : Pattern) : p.prepend [] = p := by
  cases p <;> simp [prepend]

/-- Characters are put in front of a pattern one run after the other, the last run first. -/
theorem prepend_append (cs ds : List Char) (p : Pattern) :
    p.prepend (cs ++ ds) = (p.prepend ds).prepend cs := by
  cases p <;> simp [prepend, String.append_assoc]

/-- Reads the raw body of a pattern; none if a wildcard stands before the end. -/
def ofRaw? : List Char → Option Pattern
  | [] => some (equals "")
  | ['%'] => some (startsWith "")
  | '%' :: _ :: _ => none
  | '\\' :: c :: cs => (ofRaw? cs).map (prepend (Text.resolve c))
  | c :: cs => (ofRaw? cs).map (prepend [c])

end Pattern

end RowFilter
