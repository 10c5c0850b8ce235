import RowFilter.Decimal.Basic
import RowFilter.TypeError

/-!
# JSON values

The values in which predicates are exchanged. Objects keep their fields in order, and a name may
occur in them more than once; numbers are kept as they are written, of any size and precision.
-/

set_option autoImplicit false

namespace RowFilter

/-- A JSON value. -/
inductive Json where
  | null
  | bool (value : Bool)
  | integer (value : Int)
  /-- A number that is no integer by its form: with a fraction, with an exponent, or `-0`. -/
  | fraction (value : Decimal)
  | string (value : String)
  | array (items : List Json)
  | object (fields : List (String × Json))
  deriving Inhabited

/-- Why a JSON value cannot be decoded. -/
inductive DecodeError where
  /-- The value does not have the shape of an encoding. -/
  | malformed
  /-- The value has the right shape, and its parts do not fit together. -/
  | invalid (cause : TypeError)
  deriving DecidableEq, Repr

/-- The wording of a decode error that has one. -/
def DecodeError.message? : DecodeError → Option String
  | .malformed => none
  | .invalid cause => some cause.message

namespace Json

/-- An object with one field, whose name is a tag. -/
def tagged (tag : String) (payload : Json) : Json :=
  object [(tag, payload)]

/-- The value of the field with a name, which has to stand among the fields exactly once. -/
def field (name : String) (fields : List (String × Json)) : Except DecodeError Json :=
  match fields.filter fun entry => entry.1 = name with
  | [(_, value)] => .ok value
  | _ => .error .malformed

/-- The fields of a record: those of an object, or the items of a list in the order of the names.
A list has an item for each name, and it stands for a record only where lists are allowed. -/
def record (names : List String) (lists : Bool) : Json → Except DecodeError (List (String × Json))
  | object fields => .ok fields
  | array items =>
    if lists ∧ items.length = names.length then .ok (names.zip items) else .error .malformed
  | _ => .error .malformed

/-- The text of a string. -/
def text : Json → Except DecodeError String
  | string s => .ok s
  | _ => .error .malformed

/-- The one among the choices that a tag names. The tag stands alone, or as the name of the only
field of an object, with nothing in it. -/
def choice {α : Type} (choices : List α) (tag : α → String) : Json → Except DecodeError α
  | string s => named s
  | object [(s, null)] => named s
  | _ => .error .malformed
where
  named (s : String) : Except DecodeError α :=
    match choices.find? fun a => tag a = s with
    | some a => .ok a
    | none => .error .malformed

end Json

end RowFilter
