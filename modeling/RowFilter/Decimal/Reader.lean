import RowFilter.Decimal.Basic
import RowFilter.Text.Written

/-!
# Decimals from text

A decimal is written as digits with an optional sign, at most one point and an optional exponent;
underscores may separate digits. The exponent is checked first, then that there are digits at all,
then the range of the scale, and last the digits.
-/

set_option autoImplicit false

namespace RowFilter.Decimal

/-- Why a text is no decimal. -/
inductive ReadError where
  /-- Nothing stands before the exponent. -/
  | emptyText
  /-- An integer has no characters besides its sign. -/
  | emptyInteger
  /-- A character is no digit. -/
  | invalidDigit
  /-- The exponent is larger than any that can be held. -/
  | exponentTooLarge
  /-- The exponent is smaller than any that can be held. -/
  | exponentTooSmall
  /-- The exponent moves the scale out of its range. -/
  | scaleRange (text : String)
  deriving DecidableEq, Repr

/-- The wording of a read error. -/
def ReadError.message : ReadError → String
  | .emptyText => "Failed to parse empty string"
  | .emptyInteger => "cannot parse integer from empty string"
  | .invalidDigit => "invalid digit found in string"
  | .exponentTooLarge => "number too large to fit in target type"
  | .exponentTooSmall => "number too small to fit in target type"
  | .scaleRange text => "Exponent overflow when parsing '" ++ text ++ "'"

/-- The largest magnitude of an exponent with the sign. -/
def exponentBound (negative : Bool) : Nat :=
  if negative then 1 <<< 127 else (1 <<< 127) - 1

/-- Reads the digits of an exponent from left to right after those that make up `value`. The first
character that is no digit, or that leads out of the range, decides the error. -/
def exponentDigits (negative : Bool) (value : Nat) : List Char → Except ReadError Int
  | [] => .ok (Text.signed negative value)
  | c :: cs =>
    if c.isDigit then
      let next := Text.digitsValue [c] + 10 * value
      if next ≤ exponentBound negative then exponentDigits negative next cs
      else .error (if negative then .exponentTooSmall else .exponentTooLarge)
    else .error .invalidDigit

/-- Reads an exponent: digits after an optional sign. -/
def readExponent : List Char → Except ReadError Int
  | [] => .error .emptyInteger
  | ['+'] => .error .invalidDigit
  | ['-'] => .error .invalidDigit
  | '+' :: cs => exponentDigits false 0 cs
  | '-' :: cs => exponentDigits true 0 cs
  | cs => exponentDigits false 0 cs

/-- Reads digits with separating underscores, the first of which may not stand at the front. -/
def readDigits (negative : Bool) (cs : List Char) : Except ReadError Int :=
  if cs.isEmpty then .error .emptyInteger
  else if cs.head? == some '_' || !cs.all (fun c => c.isDigit || c == '_') then
    .error .invalidDigit
  else .ok (Text.signed negative (Text.digitsValue (cs.filter (· != '_'))))

/-- Reads an integer: digits after an optional sign. -/
def readInteger : List Char → Except ReadError Int
  | '-' :: cs => readDigits true cs
  | '+' :: cs => readDigits false cs
  | cs => readDigits false cs

/-- The character begins an exponent. -/
def isExponentMark (c : Char) : Bool :=
  c == 'e' || c == 'E'

/-- The part before the exponent, and the exponent; no exponent counts as zero. -/
def splitExponent (cs : List Char) : Except ReadError (List Char × Int) :=
  match cs.dropWhile (fun c => !isExponentMark c) with
  | [] => .ok (cs, 0)
  | _ :: after =>
    (readExponent after).map fun n => (cs.takeWhile (fun c => !isExponentMark c), n)

/-- The characters without the first point, and the number of places after it. -/
def splitPoint (cs : List Char) : List Char × Nat :=
  match cs.dropWhile (· != '.') with
  | [] => (cs, 0)
  | _ :: fraction =>
    (cs.takeWhile (· != '.') ++ fraction, (fraction.filter (· != '_')).length)

/-- The scale is in the range that can be held. -/
def scaleInRange (scale : Int) : Bool :=
  Text.fitsInt64 scale

/-- Reads a decimal. -/
def ofText (text : String) : Except ReadError Decimal := do
  let (base, exponent) ← splitExponent text.toList
  if base.isEmpty then throw .emptyText
  let (digits, places) := splitPoint base
  let scale := (places : Int) - exponent
  if !scaleInRange scale then throw (.scaleRange text)
  let unscaled ← readInteger digits
  return ⟨unscaled, scale⟩

end RowFilter.Decimal
