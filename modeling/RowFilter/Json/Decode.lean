import RowFilter.Decimal.Reader
import RowFilter.Json.Encode

/-!
# Decoding from JSON

Decoding accepts the encodings, and beyond them constants and operators written as objects with
nothing under their tag, additional fields beside those of a leaf, decimals written as numbers, and
configurations written as lists. Where the value comes from a text, leaves may be written as lists
too. A field of a leaf must not be repeated. What is decoded is built by the checked constructors,
so sets and chains are valid at every depth.

A number with a fraction or an exponent is held as a float, and so is an integer beyond 64 bits.
Which decimal a float is converted to is a matter of the library of decimals and a parameter here.
-/

set_option autoImplicit false

namespace RowFilter

/-- What decoding depends on beside the value that is decoded. -/
structure Json.Reader where
  /-- The decimal that a number held as a float is converted to, if it is converted. -/
  float : Decimal → Option Decimal
  /-- Leaves may be written as lists of their fields: so in a text, but not in a tree of values. -/
  lists : Bool

/-- Decodes a column test. -/
def ColumnTest.ofJson : Json → Except DecodeError ColumnTest :=
  Json.choice [.isNull, .notNull, .isNaN, .notNaN] ColumnTest.tag

/-- Decodes a comparison. -/
def Comparison.ofJson : Json → Except DecodeError Comparison :=
  Json.choice [.equal, .notEqual, .less, .lessOrEqual, .greater, .greaterOrEqual] Comparison.tag

/-- Decodes a membership test. -/
def Membership.ofJson : Json → Except DecodeError Membership :=
  Json.choice [.inSet, .notInSet] Membership.tag

/-- Decodes a start test. -/
def StartTest.ofJson : Json → Except DecodeError StartTest :=
  Json.choice [.startsWith, .notStartsWith] StartTest.tag

/-- Decodes a literal type. -/
def LiteralType.ofJson : Json → Except DecodeError LiteralType :=
  Json.choice [.boolean, .integer, .decimal, .string] LiteralType.tag

/-- Decodes a column. -/
def Column.ofJson (j : Json) : Except DecodeError Column :=
  j.text.map Column.mk

/-- Decodes a decimal: a text or a number. Integers of 64 bits, with or without a sign, are exact;
all other numbers are converted from floats. -/
def Decimal.ofJson (reader : Json.Reader) : Json → Except DecodeError Decimal
  | .string s =>
    match Decimal.ofText s with
    | .ok d => .ok d
    | .error _ => .error .malformed
  | .integer n =>
    if Int64.minValue.toInt ≤ n ∧ n < UInt64.size then .ok ⟨n, 0⟩ else ofFloat ⟨n, 0⟩
  | .fraction d => ofFloat d
  | _ => .error .malformed
where
  ofFloat (d : Decimal) : Except DecodeError Decimal :=
    match reader.float d with
    | some d => .ok d
    | none => .error .malformed

namespace Literal

/-- Decodes what stands under the tag of a literal type. -/
def ofPayload (reader : Json.Reader) : LiteralType → Json → Except DecodeError Literal
  | .boolean, .bool b => .ok (boolean b)
  | .integer, .integer n =>
    if Text.fitsInt64 n then .ok (integer (Int64.ofInt n)) else .error .malformed
  | .decimal, j => (Decimal.ofJson reader j).map decimal
  | .string, .string s => .ok (string s)
  | _, _ => .error .malformed

/-- Decodes a literal. -/
def ofJson (reader : Json.Reader) : Json → Except DecodeError Literal
  | .object [(tag, payload)] => do
    let type ← LiteralType.ofJson (.string tag)
    ofPayload reader type payload
  | _ => .error .malformed

/-- Decodes literals from left to right. -/
def ofJsonAll (reader : Json.Reader) : List Json → Except DecodeError (List Literal)
  | [] => .ok []
  | j :: js => do
    let v ← ofJson reader j
    let vs ← ofJsonAll reader js
    return v :: vs

end Literal

/-- Decodes the list of literals of a set. -/
def Json.literals (reader : Json.Reader) : Json → Except DecodeError (List Literal)
  | .array items => Literal.ofJsonAll reader items
  | _ => .error .malformed

/-- Decodes a set. -/
def LiteralSet.ofJson (reader : Json.Reader) (j : Json) : Except DecodeError LiteralSet := do
  let values ← j.literals reader
  (LiteralSet.ofList values).mapError .invalid

/-- Decodes a configuration, which may be written as a list anywhere. -/
def Config.ofJson (j : Json) : Except DecodeError Config := do
  let fs ← j.record ["max_depth"] true
  ofDepth (← Json.field "max_depth" fs)
where
  ofDepth : Json → Except DecodeError Config
    | .integer n => if 0 ≤ n ∧ n < UInt64.size then .ok ⟨n.toNat⟩ else .error .malformed
    | _ => .error .malformed

namespace Predicate

/-- Decodes a constant. -/
def constOfJson : Json → Except DecodeError Predicate :=
  Json.choice [const true, const false] tag

/-- The names of the fields under the tag of a leaf, in the order in which a list has them. -/
def fieldNames : String → List String
  | "Unary" => ["op", "term"]
  | "Comparison" => ["op", "term", "literal"]
  | "Set" => ["op", "term", "literals"]
  | "Prefix" => ["op", "term", "prefix"]
  | _ => []

/-- Decodes a leaf on a column from its tag and the fields under it. A set is made last, so a field
that is missing or has a wrong shape is reported before a fault of the set. -/
def leafOfFields (reader : Json.Reader) (tag : String) (fs : List (String × Json)) :
    Except DecodeError Predicate := do
  let op ← Json.field "op" fs
  let column ← Column.ofJson (← Json.field "term" fs)
  match tag with
  | "Unary" => return test (← ColumnTest.ofJson op) column
  | "Comparison" =>
    return compare (← Comparison.ofJson op) column
      (← Literal.ofJson reader (← Json.field "literal" fs))
  | "Set" =>
    let op ← Membership.ofJson op
    let values ← (← Json.field "literals" fs).literals reader
    (ofMembers op column values).mapError .invalid
  | "Prefix" => return starts (← StartTest.ofJson op) column (← (← Json.field "prefix" fs).text)
  | _ => .error .malformed

/-- Decodes a leaf on a column from its tag and what stands under it. -/
def leafOfJson (reader : Json.Reader) (tag : String) (payload : Json) :
    Except DecodeError Predicate := do
  let fs ← payload.record (fieldNames tag) reader.lists
  leafOfFields reader tag fs

mutual

/-- Decodes a predicate. -/
def ofJson (reader : Json.Reader) : Json → Except DecodeError Predicate
  | .object [("Not", operand)] => (ofJson reader operand).map not
  | .object [("And", .array items)] => do
    let operands ← ofJsonAll reader items
    (ofOperands .and operands).mapError .invalid
  | .object [("Or", .array items)] => do
    let operands ← ofJsonAll reader items
    (ofOperands .or operands).mapError .invalid
  | .object [(tag, .object fs)] => leafOfJson reader tag (.object fs)
  | .object [(tag, .array items)] => leafOfJson reader tag (.array items)
  | j => constOfJson j
termination_by structural j => j

/-- Decodes predicates from left to right. -/
def ofJsonAll (reader : Json.Reader) : List Json → Except DecodeError (List Predicate)
  | [] => .ok []
  | j :: js => do
    let p ← ofJson reader j
    let ps ← ofJsonAll reader js
    return p :: ps
termination_by structural js => js

end

end Predicate

end RowFilter
