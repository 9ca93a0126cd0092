import RowQuery.Double.Shortest
import RowQuery.Json.Basic
import RowQuery.Text.Split

namespace RowQuery

def Number.chars : Number → List Char
  | .integer i => Decimal.intChars i.val
  | .float x => FloatLayout.json.chars x

namespace Json

def quote : Char := '\x22'

def hexDigit (n : Nat) : Char := Char.ofNat (if n < 10 then 48 + n else 87 + n)

/-- A character between quotes. Only the quote, the backslash and the control characters below the space
are written in another way than as themselves. -/
def escapeChar (c : Char) : List Char :=
  if c = quote then ['\\', quote]
  else if c = '\\' then ['\\', '\\']
  else if c = '\x08' then ['\\', 'b']
  else if c = '\t' then ['\\', 't']
  else if c = '\n' then ['\\', 'n']
  else if c = '\x0c' then ['\\', 'f']
  else if c = '\r' then ['\\', 'r']
  else if c.toNat < 32 then ['\\', 'u', '0', '0', hexDigit (c.toNat / 16), hexDigit (c.toNat % 16)]
  else [c]

def quoted (s : String) : List Char := quote :: s.toList.flatMap escapeChar ++ [quote]

mutual

def chars : Json → List Char
  | .null => ['n', 'u', 'l', 'l']
  | .bool true => ['t', 'r', 'u', 'e']
  | .bool false => ['f', 'a', 'l', 's', 'e']
  | .number n => n.chars
  | .string s => quoted s
  | .array items => '[' :: Text.join [','] (itemChars items) ++ [']']
  | .object members => '\x7b' :: Text.join [','] (memberChars members) ++ ['\x7d']

def itemChars : List Json → List (List Char)
  | [] => []
  | a :: rest => a.chars :: itemChars rest

def memberChars : List (String × Json) → List (List Char)
  | [] => []
  | (name, a) :: rest => (quoted name ++ ':' :: a.chars) :: memberChars rest

end

def text (a : Json) : String := String.ofList a.chars

end Json

end RowQuery
