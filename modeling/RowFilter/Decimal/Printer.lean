import RowFilter.Decimal.Basic
import RowFilter.Text.Written

/-!
# Decimals as text

The plain form has no exponent and shows the scale: as many digits after the point as the scale
says. The encoded form, used in JSON, is the plain form as long as that is short and has an exponent
otherwise.
-/

set_option autoImplicit false

namespace RowFilter.Decimal

/-- So many zeros. -/
def zeros (n : Nat) : List Char :=
  List.replicate n '0'

/-- The digits of the unscaled number without its sign. -/
def digits (d : Decimal) : List Char :=
  Text.natDigits d.unscaled.natAbs

/-- Puts a point before the last `places` digits, with zeros in front so that a digit precedes
it. -/
def placePoint (places : Nat) (digits : List Char) : List Char :=
  let padded := zeros (places + 1 - digits.length) ++ digits
  padded.take (padded.length - places) ++ ['.'] ++ padded.drop (padded.length - places)

/-- The plain form: never an exponent, and the scale shown by the places after the point. -/
def plain (d : Decimal) : String :=
  String.ofList (Text.minusSign d.unscaled ++
    if d.scale ≤ 0 then d.digits ++ zeros (-d.scale).toNat
    else placePoint d.scale.toNat d.digits)

/-- The encoded form writes more zeros than this right after the point as an exponent. -/
def leadingZeroLimit : Int := 5

/-- The encoded form writes more zeros than this at the end of an integer as an exponent. -/
def trailingZeroLimit : Int := 15

/-- The digits with a point after the first one, unless it is the only one. -/
def pointAfterFirst : List Char → List Char
  | [] => []
  | [c] => [c]
  | c :: cs => c :: '.' :: cs

/-- The encoded form: zero is `0`, very small numbers have an exponent after `E`, integers with many
zeros at the end have one after `e+`, and all others are plain. -/
def encoded (d : Decimal) : String :=
  if d.unscaled = 0 then "0"
  else if d.scale - d.digits.length > leadingZeroLimit then
    String.ofList (Text.minusSign d.unscaled ++ pointAfterFirst d.digits ++ ['E']) ++
      Text.intText (d.digits.length - 1 - d.scale)
  else if -d.scale > trailingZeroLimit then
    String.ofList (Text.minusSign d.unscaled ++ d.digits ++ ['e', '+']) ++ Text.intText (-d.scale)
  else d.plain

end RowFilter.Decimal
