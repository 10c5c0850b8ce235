import RowFilter.Operator

/-!
# Keywords

The words that the filter language keeps for itself. They are recognised in any mixture of ASCII
upper and lower case.
-/

set_option autoImplicit false

namespace RowFilter

/-- A reserved word. -/
inductive Keyword where
  | connective (op : Connective)
  | not
  | inSet
  | is
  | null
  | nan
  | like
  | bool (value : Bool)
  deriving DecidableEq, Repr

namespace Keyword

/-- The spelling in upper case. -/
def text : Keyword → String
  | connective op => op.text
  | not => "NOT"
  | inSet => "IN"
  | is => "IS"
  | null => "NULL"
  | nan => "NAN"
  | like => "LIKE"
  | bool true => "TRUE"
  | bool false => "FALSE"

/-- All the keywords. -/
def all : List Keyword :=
  [connective .and, connective .or, not, inSet, is, null, nan, like, bool true, bool false]

/-- The keyword that a word spells, if it spells one. -/
def ofWord? (word : List Char) : Option Keyword :=
  all.find? fun k => k.text.toList = word.map Char.toUpper

end Keyword

end RowFilter
