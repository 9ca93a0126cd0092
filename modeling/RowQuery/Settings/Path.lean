import RowQuery.Settings.Setting

namespace RowQuery.Path

def isNameChar (c : Char) : Bool := c.isAlphanum || c = '_' || c = '-' || c = ' '

def isSpace (c : Char) : Bool := c = ' ' || c = '\t'

def readName? (s : List Char) : Option (String × List Char) :=
  let name := s.takeWhile isNameChar
  if name = [] then none else some (String.ofList name, s.dropWhile isNameChar)

def readNumber? (s : List Char) : Option (Int × List Char) :=
  let (negative, s) := match s.dropWhile isSpace with
    | '-' :: s => (true, s)
    | s => (false, s)
  let digits := s.takeWhile Char.isDigit
  match (s.dropWhile Char.isDigit).dropWhile isSpace with
  | ']' :: rest =>
    if digits = [] then none
    else (int64OfInt? (if negative then -digitsValue digits else digitsValue digits)).map fun i => (i.toInt, rest)
  | _ => none

/-- Names after dots and numbers of items in brackets, of which `fuel` bounds the number. -/
def readSteps? : Nat → List Char → Option Path
  | _, [] => some []
  | 0, _ => none
  | fuel + 1, '.' :: s => do
    let (name, s) ← readName? s
    let steps ← readSteps? fuel s
    some (.name name :: steps)
  | fuel + 1, '[' :: s => do
    let (number, s) ← readNumber? s
    let steps ← readSteps? fuel s
    some (.item number :: steps)
  | _, _ => none

def ofText? (s : String) : Option Path := readSteps? (s.length + 1) ('.' :: s.toList)

/-- The steps that a key stands for, in which case does not matter. A key that is no path is a name as it
stands. -/
def ofKey (key : String) : Path := (ofText? (Text.lowered key)).getD [.name key]

end RowQuery.Path
