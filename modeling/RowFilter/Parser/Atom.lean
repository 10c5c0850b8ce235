import RowFilter.Parser.Basic
import RowFilter.Predicate.Basic

/-!
# Reading the leaves of predicates

A leaf is a constant, or a test of one column. A comparison may have its literal on either side; it
is kept with the column on the left. Single-quoted text can be a column as well as a literal: it is
a literal on the left side only if a name follows the comparison sign.
-/

set_option autoImplicit false

namespace RowFilter

namespace Kind

/-- The text that a raw string body stands for. -/
def unescaped (raw : String) : String :=
  String.ofList (Text.unescape raw.toList)

/-- The literal that a kind stands for. -/
def literal? : Kind → Option Literal
  | string raw => some (.string (unescaped raw))
  | integer n => some (.integer n)
  | decimal d => some (.decimal d)
  | keyword (.bool b) => some (.boolean b)
  | _ => none

/-- The comparison that a kind stands for. -/
def comparison? : Kind → Option Comparison
  | comparison op => some op
  | _ => none

/-- The column test that ends with a kind, after `IS NOT` or after `IS`. -/
def columnTest? (negated : Bool) : Kind → Option ColumnTest
  | keyword .null => some (if negated then .notNull else .isNull)
  | keyword .nan => some (if negated then .notNaN else .isNaN)
  | _ => none

end Kind

/-- The predicate that asks a column for a pattern, or for its absence. -/
def Pattern.toPredicate (negated : Bool) (column : Column) : Pattern → Predicate
  | .equals value =>
    .compare (if negated then .notEqual else .equal) column (.string value)
  | .startsWith stem =>
    .starts (if negated then .notStartsWith else .startsWith) column stem

namespace Parser

/-- Reads a literal. -/
def literal : Parser Literal :=
  take Kind.literal? .literal

/-- Reads a comparison sign. -/
def comparison : Parser Comparison :=
  take Kind.comparison? .comparison

/-- The segments of a dotted name after the first one. -/
def readSegments : List Kind → Outcome (List String)
  | .dot :: .word name :: ks => (readSegments ks).map (name :: ·)
  | .dot :: ks => ⟨.error (.unexpected .segment), ks, []⟩
  | ks => ⟨.ok [], ks, []⟩

/-- Reading the segments of a path only takes tokens off the front. -/
theorem readSegments_suffix (ks : List Kind) : (readSegments ks).rest <:+ ks := by
  fun_induction readSegments ks with
  | case1 name ks ih => exact ih.trans ((List.suffix_cons _ _).trans (List.suffix_cons _ _))
  | case2 ks _ => exact List.suffix_cons _ _
  | case3 ks _ _ => exact List.suffix_refl _

/-- Reads the segments of a dotted name after the first one. -/
def segments : Parser (List String) where
  run := readSegments
  rest_suffix := readSegments_suffix

/-- Reads a column: a dotted name, a name in double quotes, or single-quoted text. -/
def column : Parser Column :=
  peek fun
    | .word first :: _ => do
      advance
      let more ← segments
      return ⟨Text.join "." (first :: more)⟩
    | .quotedName name :: _ => do
      advance
      return ⟨name⟩
    | .string raw :: _ => do
      advance
      return ⟨Kind.unescaped raw⟩
    | _ => fail (.unexpected .column)

/-- One literal or more with commas between them. -/
def readLiterals : List Kind → Outcome (List Literal)
  | [] => ⟨.error (.unexpected .literal), [], []⟩
  | k :: ks =>
    match k.literal?, ks with
    | none, ks => ⟨.error (.unexpected .literal), k :: ks, []⟩
    | some v, .comma :: more => (readLiterals more).map (v :: ·)
    | some v, ks => ⟨.ok [v], ks, []⟩

/-- Reading the literals of a list only takes tokens off the front. -/
theorem readLiterals_suffix (ks : List Kind) : (readLiterals ks).rest <:+ ks := by
  fun_induction readLiterals ks with
  | case1 => exact List.suffix_refl _
  | case2 k ks _ => exact List.suffix_refl _
  | case3 k v _ more ih => exact ih.trans ((List.suffix_cons _ _).trans (List.suffix_cons _ _))
  | case4 k ks v _ _ => exact List.suffix_cons _ _

/-- Reads one literal or more with commas between them. -/
def literals : Parser (List Literal) where
  run := readLiterals
  rest_suffix := readLiterals_suffix

/-- Reads the set of a membership test. -/
def membership (op : Membership) (column : Column) : Parser Predicate := do
  expect .leftParen .leftParen
  let values ← literals
  expect .rightParen .rightParen
  ofExcept .invalidSet (Predicate.ofMembers op column values)

/-- Reads the pattern of a `LIKE` test. -/
def pattern (negated : Bool) (column : Column) : Parser Predicate :=
  peek fun
    | .string raw :: _ => do
      advance
      match Pattern.ofRaw? raw.toList with
      | some pattern =>
        record ⟨raw, pattern⟩
        return pattern.toPredicate negated column
      | none => fail (.invalidPattern raw)
    | _ => fail (.unexpected .string)

/-- Reads what is asked of a column after the column itself. -/
def afterColumn (c : Column) : Parser Predicate :=
  peek fun
    | .keyword .is :: .keyword .not :: _ => do
      advance
      advance
      let op ← take (Kind.columnTest? true) .nullTestAfterNot
      return .test op c
    | .keyword .is :: _ => do
      advance
      let op ← take (Kind.columnTest? false) .nullTest
      return .test op c
    | .keyword .not :: .keyword .inSet :: _ => do
      advance
      advance
      membership .notInSet c
    | .keyword .not :: .keyword .like :: _ => do
      advance
      advance
      pattern true c
    | .keyword .not :: _ => do
      advance
      fail (.unexpected .testAfterNot)
    | .keyword .inSet :: _ => do
      advance
      membership .inSet c
    | .keyword .like :: _ => do
      advance
      pattern false c
    | _ => do
      let op ← comparison
      let value ← literal
      return .compare op c value

/-- Reads a test that begins with its column. -/
def columnFirst : Parser Predicate := do
  let c ← column
  afterColumn c

/-- Reads a comparison that begins with its literal. -/
def literalFirst : Parser Predicate := do
  let value ← literal
  let op ← comparison
  let c ← column
  return .compare op.flipped c value

/-- Reads a leaf. -/
def atom : Parser Predicate :=
  peek fun
    | .keyword (.bool _) :: .comparison _ :: _ => literalFirst
    | .keyword (.bool b) :: _ => do
      advance
      return .const b
    | .integer _ :: _ => literalFirst
    | .decimal _ :: _ => literalFirst
    | .string _ :: .comparison _ :: .word _ :: _ => literalFirst
    | .string _ :: .comparison _ :: .quotedName _ :: _ => literalFirst
    | .string _ :: _ => columnFirst
    | .word _ :: _ => columnFirst
    | .quotedName _ :: _ => columnFirst
    | _ => fail (.unexpected .operand)

end Parser

end RowFilter
