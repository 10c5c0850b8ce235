import RowFilter.Keyword
import RowFilter.Text.Character
import RowFilter.Text.Written

/-!
# Columns

A column is known by its name, which may be any text. A name made of words and dots is written as it
is; any other name is quoted.
-/

set_option autoImplicit false

namespace RowFilter

/-- A column of the filtered table. -/
structure Column where
  name : String
  deriving DecidableEq, Repr, Inhabited

namespace Column

/-- The segment is a word and no keyword. -/
def isBareSegment : List Char → Bool
  | [] => false
  | c :: cs => Text.isWordStart c && cs.all Text.isWordChar && (Keyword.ofWord? (c :: cs)).isNone

/-- The name needs no quotes. -/
def isBare (column : Column) : Bool :=
  (Text.segments column.name.toList).all isBareSegment

/-- The column as it is written in a filter: bare if possible, in double quotes if the name holds
none, and in single quotes otherwise. -/
def render (column : Column) : String :=
  if column.isBare then column.name
  else if column.name.toList.contains '"' then Text.quote column.name
  else "\"" ++ column.name ++ "\""

end Column

end RowFilter
