import RowQuery.Calendar.Date
import RowQuery.Double.Decimal
import RowQuery.Text.Blank

namespace RowQuery

/-- The numbers that a written point in time consists of. -/
structure Timestamp where
  year : Int := 0
  month : Nat := 1
  day : Nat := 1
  hour : Nat := 0
  minute : Nat := 0
  second : Nat := 0
deriving DecidableEq

namespace Timestamp

inductive Field
  | year | month | day | hour | minute | second
deriving DecidableEq

/-- A part of the way in which a point in time is written. -/
inductive Item
  /-- A number of exactly its full width. -/
  | exact (field : Field)
  /-- A number of one digit up to its full width, with blanks before it. A year may have a sign, and then any
  number of digits. -/
  | loose (field : Field)
  | mark (choices : List Char)
  | gap
  /-- A point with digits, or nothing. -/
  | fraction
  /-- `Z`, or a sign, hours, a colon and minutes. -/
  | zone

namespace Field

def width : Field → Nat
  | .year => 4
  | _ => 2

def put (f : Field) (n : Int) (t : Timestamp) : Timestamp :=
  match f with
  | .year => { t with year := n }
  | .month => { t with month := n.toNat }
  | .day => { t with day := n.toNat }
  | .hour => { t with hour := n.toNat }
  | .minute => { t with minute := n.toNat }
  | .second => { t with second := n.toNat }

end Field

/-- Up to `most` digits from the front of a text. -/
def leadingDigits (most : Nat) (s : List Char) : List Char := (s.take most).takeWhile Char.isDigit

/-- A number of `least` to `most` digits from the front of a text. -/
def readNumber? (least most : Nat) (s : List Char) : Option (Nat × List Char) :=
  let digits := leadingDigits most s
  if digits.length < least then none else some (digitsValue digits, s.drop digits.length)

def readLoose? (f : Field) (s : List Char) : Option (Int × List Char) :=
  match f, Text.trimStart s with
  | .year, '-' :: s => (readNumber? 1 s.length s).map fun (n, s) => (-n, s)
  | .year, '+' :: s => (readNumber? 1 s.length s).map fun (n, s) => (n, s)
  | f, s => (readNumber? 1 f.width s).map fun (n, s) => (n, s)

/-- The offset from universal time does not move the date that is written; it only has to be one. -/
def readZone? : List Char → Option (List Char)
  | [] => none
  | c :: s =>
    if c = 'Z' ∨ c = 'z' then some s
    else if c = '+' ∨ c = '-' ∨ c = Char.ofNat 0x2212 then
      match readNumber? 2 2 s with
      | some (hours, ':' :: s) =>
        match readNumber? 2 2 s with
        | some (minutes, s) => if hours < 24 ∧ minutes < 60 then some s else none
        | none => none
      | _ => none
    else none

def readFraction? : List Char → Option (List Char)
  | '.' :: s => if (leadingDigits 1 s).isEmpty then none else some (s.dropWhile Char.isDigit)
  | s => some s

def Item.read? (item : Item) (t : Timestamp) (s : List Char) : Option (Timestamp × List Char) :=
  match item with
  | .exact f => (readNumber? f.width f.width s).map fun (n, s) => (f.put n t, s)
  | .loose f => (readLoose? f s).map fun (n, s) => (f.put n t, s)
  | .mark choices =>
    match s with
    | c :: s => if c ∈ choices then some (t, s) else none
    | [] => none
  | .gap => some (t, Text.trimStart s)
  | .fraction => (readFraction? s).map (t, ·)
  | .zone => (readZone? s).map (t, ·)

def readItems? : List Item → Timestamp → List Char → Option (Timestamp × List Char)
  | [], t, s => some (t, s)
  | item :: items, t, s => do
    let (t, s) ← item.read? t s
    readItems? items t s

def date (t : Timestamp) : Date := ⟨t.year, t.month, t.day⟩

def IsValid (t : Timestamp) : Prop := t.date.IsValid ∧ t.hour ≤ 23 ∧ t.minute ≤ 59 ∧ t.second ≤ 60

instance (t : Timestamp) : Decidable t.IsValid := inferInstanceAs (Decidable (_ ∧ _))

def looseDate : List Item := [.loose .year, .mark ['-'], .loose .month, .mark ['-'], .loose .day]

def looseTime : List Item := [.loose .hour, .mark [':'], .loose .minute, .mark [':'], .loose .second]

def exactDate : List Item := [.exact .year, .mark ['-'], .exact .month, .mark ['-'], .exact .day]

def exactTime : List Item := [.exact .hour, .mark [':'], .exact .minute, .mark [':'], .exact .second]

/-- The date and time with an offset, as protocols on the Internet write them. -/
def internet : List Item := exactDate ++ .mark ['T', 't', ' '] :: exactTime ++ [.fraction, .zone]

def layouts : List (List Item) :=
  [internet, looseDate ++ .gap :: looseTime, looseDate ++ .mark ['T'] :: looseTime,
    looseDate ++ .gap :: looseTime ++ [.fraction], looseDate]

def ofLayout? (layout : List Item) (s : List Char) : Option Timestamp :=
  match readItems? layout {} s with
  | some (t, []) => if t.IsValid then some t else none
  | _ => none

end Timestamp

/-- The date in a text, by the first layout that fits it. -/
def Date.ofText? (s : List Char) : Option Date :=
  (Timestamp.layouts.findSome? fun layout => Timestamp.ofLayout? layout (Text.trim s)).map Timestamp.date

end RowQuery
