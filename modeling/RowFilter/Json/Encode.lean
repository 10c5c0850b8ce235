import RowFilter.Json.Basic
import RowFilter.Predicate.Basic
import RowFilter.Session

/-!
# Encoding as JSON

Operators are encoded by their tags. A literal is an object whose only field is tagged with its
type; a predicate is likewise tagged with its form, and constants are tags on their own.
-/

set_option autoImplicit false

namespace RowFilter

/-- The tag of a column test. -/
def ColumnTest.tag : ColumnTest → String
  | .isNull => "IsNull"
  | .notNull => "NotNull"
  | .isNaN => "IsNaN"
  | .notNaN => "NotNaN"

/-- The tag of a comparison. -/
def Comparison.tag : Comparison → String
  | .equal => "EqualTo"
  | .notEqual => "NotEqualTo"
  | .less => "LessThan"
  | .lessOrEqual => "LessThanOrEqual"
  | .greater => "GreaterThan"
  | .greaterOrEqual => "GreaterThanOrEqual"

/-- The tag of a membership test. -/
def Membership.tag : Membership → String
  | .inSet => "In"
  | .notInSet => "NotIn"

/-- The tag of a start test. -/
def StartTest.tag : StartTest → String
  | .startsWith => "StartsWith"
  | .notStartsWith => "NotStartsWith"

/-- The tag of a chain. -/
def Connective.tag : Connective → String
  | .and => "And"
  | .or => "Or"

/-- The tag of a literal type. -/
def LiteralType.tag : LiteralType → String
  | .boolean => "Boolean"
  | .integer => "Integer"
  | .decimal => "Decimal"
  | .string => "String"

/-- The tag of the form of a predicate. -/
def Predicate.tag : Predicate → String
  | .const true => "AlwaysTrue"
  | .const false => "AlwaysFalse"
  | .test _ _ => "Unary"
  | .compare _ _ _ => "Comparison"
  | .member _ _ _ => "Set"
  | .starts _ _ _ => "Prefix"
  | .not _ => "Not"
  | .chain op _ => op.tag

/-- A column is encoded as its name. -/
def Column.toJson (column : Column) : Json :=
  .string column.name

namespace Literal

/-- What stands under the tag of a literal; decimals are encoded as text. -/
def payload : Literal → Json
  | boolean b => .bool b
  | integer n => .integer n.toInt
  | decimal d => .string d.encoded
  | string s => .string s

/-- The encoding of a literal. -/
def toJson (v : Literal) : Json :=
  .tagged v.type.tag v.payload

end Literal

/-- A set is encoded as the list of its members. -/
def LiteralSet.toJson (s : LiteralSet) : Json :=
  .array (s.members.map Literal.toJson)

/-- The encoding of a configuration. -/
def Config.toJson (config : Config) : Json :=
  .object [("max_depth", .integer config.maxDepth)]

namespace Predicate

mutual

/-- The encoding of a predicate. -/
def toJson : Predicate → Json
  | const value => .string (const value).tag
  | test op column =>
    .tagged (test op column).tag
      (.object [("op", .string op.tag), ("term", column.toJson)])
  | compare op column value =>
    .tagged (compare op column value).tag
      (.object [("op", .string op.tag), ("term", column.toJson), ("literal", value.toJson)])
  | member op column values =>
    .tagged (member op column values).tag
      (.object [("op", .string op.tag), ("term", column.toJson), ("literals", values.toJson)])
  | starts op column stem =>
    .tagged (starts op column stem).tag
      (.object [("op", .string op.tag), ("term", column.toJson), ("prefix", .string stem)])
  | not operand => .tagged (not operand).tag (toJson operand)
  | chain op operands => .tagged (chain op operands).tag (.array (toJsonAll operands))

/-- The encodings of all the predicates. -/
def toJsonAll : List Predicate → List Json
  | [] => []
  | p :: ps => toJson p :: toJsonAll ps

end

/-- Operands are encoded one by one. -/
theorem toJsonAll_eq_map (ps : List Predicate) : toJsonAll ps = ps.map toJson := by
  induction ps with
  | nil => rfl
  | cons p ps ih => simp [toJsonAll, ih]

end Predicate

end RowFilter
