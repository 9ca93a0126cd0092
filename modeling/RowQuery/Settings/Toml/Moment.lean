import RowQuery.Calendar.Timestamp

namespace RowQuery.Toml

/-- The digits of a fraction of a second, up to the ninth and without zeros at their end. -/
def fractionText (digits : List Char) : List Char :=
  match ((digits.take 9).reverse.dropWhile (· == '0')).reverse with
  | [] => []
  | digits => '.' :: digits

/-- A time of the day in its own form, and what follows it. -/
def readTime? (s : List Char) : Option (List Char × List Char) :=
  if (Timestamp.ofLayout? Timestamp.exactTime (s.take 8)).isNone then none
  else match s.drop 8 with
    | '.' :: rest =>
      let digits := rest.takeWhile Char.isDigit
      if digits = [] then none else some (s.take 8 ++ fractionText digits, rest.dropWhile Char.isDigit)
    | rest => some (s.take 8, rest)

/-- An offset from universal time in its own form; there may be none. -/
def zoneText? (s : List Char) : Option (List Char) :=
  match s with
  | [] => some []
  | c :: rest =>
    if (c = 'Z' ∨ c = 'z') ∧ rest = [] then some ['Z']
    else if (c = '+' ∨ c = '-')
        ∧ (Timestamp.ofLayout? [.exact .hour, .mark [':'], .exact .minute] rest).isSome then
      some ((if rest = ['0', '0', ':', '0', '0'] then '+' else c) :: rest)
    else none

/-- The form in which a date, a time or both are kept. -/
def momentText? (s : List Char) : Option (List Char) :=
  let date := s.take 10
  if (Timestamp.ofLayout? Timestamp.exactDate date).isSome then
    match s.drop 10 with
    | [] => some date
    | c :: rest =>
      if c = 'T' ∨ c = 't' ∨ c = ' ' then do
        let (time, rest) ← readTime? rest
        let zone ← zoneText? rest
        some (date ++ 'T' :: time ++ zone)
      else none
  else match readTime? s with
    | some (time, []) => some time
    | _ => none

/-- The name that makes a table a date, a time or both if it is the first in it. -/
def momentName : String := "$__toml_private_datetime"

end RowQuery.Toml
