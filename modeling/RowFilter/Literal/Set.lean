import RowFilter.Text.Written
import RowFilter.TypeError

/-!
# Sets of literals

The right side of a membership test: literals of one type in ascending order, none of them twice.
Of literals with equal value the one written last is kept.
-/

set_option autoImplicit false

namespace RowFilter

/-- The type that all the literals have; none if there are no literals. The error names the first
type and the first one that differs from it. -/
def commonType : List Literal → Except TypeError (Option LiteralType)
  | [] => .ok none
  | v :: vs =>
    match vs.find? (fun w => !v.type.isCompatibleWith w.type) with
    | some w => .error (.mixedTypes v.type w.type)
    | none => .ok (some v.type)

/-- Literals in ascending order, with the type that they share. -/
structure LiteralSet where
  members : List Literal
  type : LiteralType
  deriving DecidableEq

namespace LiteralSet

/-- Puts a literal in its place in an ascending list, where it takes the place of an equal one. -/
def insert (v : Literal) : List Literal → List Literal
  | [] => [v]
  | w :: ws =>
    match compare v w with
    | .lt => v :: w :: ws
    | .eq => v :: ws
    | .gt => w :: insert v ws

/-- The literals in ascending order; of equal ones the last is kept. -/
def sort (vs : List Literal) : List Literal :=
  vs.foldl (fun ws v => insert v ws) []

/-- The set of the literals, which must be of one type, and at least one. -/
def ofList (vs : List Literal) : Except TypeError LiteralSet :=
  match commonType (sort vs) with
  | .error e => .error e
  | .ok none => .error .emptySet
  | .ok (some type) => .ok ⟨sort vs, type⟩

/-- The number of members. -/
def size (s : LiteralSet) : Nat :=
  s.members.length

/-- The set has no members. -/
def isEmpty (s : LiteralSet) : Bool :=
  s.members.isEmpty

/-- Some member equals the literal. -/
def contains (s : LiteralSet) (v : Literal) : Bool :=
  s.members.any (Literal.same v)

/-- Two lists of literals agree member by member. -/
def sameMembers : List Literal → List Literal → Bool
  | [], [] => true
  | v :: vs, w :: ws => v.same w && sameMembers vs ws
  | _, _ => false

/-- The sets have equal members. -/
def same (s t : LiteralSet) : Bool :=
  s.type = t.type && sameMembers s.members t.members

/-- The set as it is written in a filter. -/
def render (s : LiteralSet) : String :=
  "(" ++ Text.join ", " (s.members.map Literal.render) ++ ")"

end LiteralSet

end RowFilter
