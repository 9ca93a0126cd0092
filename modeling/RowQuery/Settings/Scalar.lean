import RowQuery.Double.Shortest
import RowQuery.Json.Basic
import RowQuery.Text.Case

namespace RowQuery

inductive Scalar
  | text (s : String)
  | int (i : Int64)
  | float (x : Double)
  | bool (b : Bool)
deriving DecidableEq

namespace Scalar

def isYes (s : String) : Bool := s = "true" || s = "on" || s = "yes"

def isNo (s : String) : Bool := s = "false" || s = "off" || s = "no"

/-- The whole number nearest to a double, a half going up, within the range of 64 bits. -/
def countOfDouble : Double → UInt64
  | .finite x =>
    if x.negative then 0
    else UInt64.ofNat (min (UInt64.size - 1) ((2 * x.magnitude + Double.unitsInOne) / (2 * Double.unitsInOne)))
  | .infinite false => UInt64.ofNat (UInt64.size - 1)
  | _ => 0

def doubleText : Double → String
  | .finite x => String.ofList (FloatLayout.plain.chars x)
  | .infinite false => "inf"
  | .infinite true => "-inf"
  | .nan => "NaN"

def count? : Scalar → Option UInt64
  | .text s =>
    let word := Text.lowered s
    if isYes word then some 1 else if isNo word then some 0 else countOf? s.toList
  | .int i => if 0 ≤ i then some i.toUInt64 else none
  | .float x => some (countOfDouble x)
  | .bool b => some (if b then 1 else 0)

def bool? : Scalar → Option Bool
  | .text s =>
    let word := Text.lowered s
    if word = "1" ∨ isYes word then some true else if word = "0" ∨ isNo word then some false else none
  | .int i => some (i != 0)
  | .float x => some (x.compare? .zero != some .eq)
  | .bool b => some b

def asText : Scalar → String
  | .text s => s
  | .int i => toString i.toInt
  | .float x => doubleText x
  | .bool b => if b then "true" else "false"

/-- The scalar that the text of a variable stands for: true or false in any case, a whole number, another
number, or the text itself. -/
def ofVariable (s : String) : Scalar :=
  let word := Text.lowered s
  if word = "true" then .bool true
  else if word = "false" then .bool false
  else match int? s.toList with
    | some i => .int i
    | none => match Double.ofText? s.toList with
      | some x => .float x
      | none => .text s
where
  int? (s : List Char) : Option Int64 :=
    let (negative, digits) := Double.readSign s
    if digits ≠ [] ∧ digits.all Char.isDigit then
      int64OfInt? (if negative then -digitsValue digits else digitsValue digits)
    else none

end Scalar

end RowQuery
