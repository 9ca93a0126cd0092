import RowQuery.Json.Order
import RowQuery.Json.Printer
import RowQuery.Text.Blank
import RowQuery.Text.Case
import RowQuery.Text.Wildcard

namespace RowQuery

inductive Comparison
  | eq | ne | gt | ge | lt | le
deriving DecidableEq

inductive Operator
  | comparison (c : Comparison)
  | like
  | notLike
deriving DecidableEq

namespace Comparison

def ofText? (s : String) : Option Comparison :=
  if s = "=" then some .eq
  else if s = "!=" ∨ s = "<>" then some .ne
  else if s = ">" then some .gt
  else if s = ">=" then some .ge
  else if s = "<" then some .lt
  else if s = "<=" then some .le
  else none

def admits : Comparison → Ordering → Bool
  | .eq, o => o.isEq
  | .ne, o => !o.isEq
  | .gt, o => o.isGT
  | .ge, o => !o.isLT
  | .lt, o => o.isLT
  | .le, o => !o.isGT

def holds (c : Comparison) (o : Option Ordering) : Bool := o.any c.admits

end Comparison

namespace Operator

def ofText? (s : String) : Option Operator :=
  if s = "like" then some .like
  else if s = "not like" then some .notLike
  else (Comparison.ofText? s).map .comparison

/-- The spelling by which an operator is looked up, without outer blanks and in lower case. -/
def normalized (s : String) : String := Text.lowered (Text.trimmed s)

def plainText : Json → String
  | .string s => s
  | a => a.text

/-- Both sides of `like` are lower-cased as a whole before they are matched. -/
def isLike (a pattern : Json) : Bool :=
  Text.matchesPattern (Text.lower (plainText pattern).toList) (Text.lower (plainText a).toList)

/-- The value of an operator on two values. With a null on either side only the tests for null, which
are equality and inequality with a null on the right, can hold. -/
def apply (op : Operator) (a b : Json) : Bool :=
  if b.isNull then
    match op with
    | .comparison .eq => a.isNull
    | .comparison .ne => !a.isNull
    | _ => false
  else if a.isNull then false
  else match op with
    | .like => isLike a b
    | .notLike => !isLike a b
    | .comparison c => c.holds (a.compare? b)

end Operator

end RowQuery
