import RowQuery.Json.Reader

namespace RowQuery.Toml

def isSpace (c : Char) : Bool := c = ' ' || c = '\t'

def skipSpace (s : List Char) : List Char := s.dropWhile isSpace

/-- The characters that comments and texts may hold as they are: the tab is the only control character. -/
def isPlain (c : Char) : Bool := c = '\t' || (32 ≤ c.toNat && c.toNat ≠ 127)

/-- Skips spaces, line breaks and comments up to the end of their line. -/
def skipLinesFrom : Bool → List Char → List Char
  | _, [] => []
  | false, c :: rest =>
    if c = '#' then skipLinesFrom true rest
    else if isSpace c || c = '\n' then skipLinesFrom false rest
    else c :: rest
  | true, c :: rest =>
    if c = '\n' then skipLinesFrom false rest
    else if isPlain c then skipLinesFrom true rest
    else c :: rest

def skipLines (s : List Char) : List Char := skipLinesFrom false s

/-- What follows the end of a line that has nothing more than a comment on it. -/
def endLine? (s : List Char) : Option (List Char) :=
  let rest := match skipSpace s with
    | '#' :: rest => rest.dropWhile isPlain
    | rest => rest
  match rest with
  | [] => some []
  | c :: rest => if c = '\n' then some rest else none

def charOf? (n : Nat) : Option Char := if n.isValidChar then some (Char.ofNat n) else none

/-- The character of an escape, which begins behind the backslash. -/
def readEscape? : List Char → Option (Char × List Char)
  | [] => none
  | 'u' :: rest => do
    let (n, rest) ← Json.readHex? rest
    let c ← charOf? n
    some (c, rest)
  | 'U' :: rest => do
    let (high, rest) ← Json.readHex? rest
    let (low, rest) ← Json.readHex? rest
    let c ← charOf? (high * 65536 + low)
    some (c, rest)
  | c :: rest => if c = '/' then none else (Json.escapedChar? c).map (·, rest)

/-- How a text is quoted. A long one stands between three quotes on either side and may hold line breaks. -/
structure Quoting where
  quote : Char
  hasEscapes : Bool
  isLong : Bool

namespace Quoting

/-- The end of a text where it stands here. Three quotes end a long text, and one or two quotes more than
that belong to it. -/
def readEnd? (q : Quoting) (s : List Char) : Option (List Char × List Char) :=
  let run := (s.takeWhile (· == q.quote)).length
  if q.isLong then
    if run < 3 then none
    else
      let kept := min (run - 3) 2
      some (List.replicate kept q.quote, s.drop (kept + 3))
  else if run = 0 then none else some ([], s.drop 1)

/-- What a backslash with the characters behind it stands for. At the end of a line of a long text it takes
away the line break and the whitespace that follows. -/
def readEscaped? (q : Quoting) (s : List Char) : Option (List Char × List Char) :=
  match skipSpace s with
  | [] => none
  | c :: rest =>
    if q.isLong ∧ c = '\n' then some ([], rest.dropWhile fun c => isSpace c || c = '\n')
    else (readEscape? s).map fun (c, rest) => ([c], rest)

/-- The characters up to the closing quotes, of which `fuel` bounds the number. -/
def readChars? (q : Quoting) : Nat → List Char → Option (List Char × List Char)
  | 0, _ => none
  | fuel + 1, s =>
    match q.readEnd? s, s with
    | some ended, _ => some ended
    | none, [] => none
    | none, c :: rest =>
      if c = '\\' ∧ q.hasEscapes then do
        let (start, rest) ← q.readEscaped? rest
        let (cs, rest) ← q.readChars? fuel rest
        some (start ++ cs, rest)
      else if isPlain c ∨ q.isLong ∧ c = '\n' then do
        let (cs, rest) ← q.readChars? fuel rest
        some (c :: cs, rest)
      else none

def read? (q : Quoting) (s : List Char) : Option (String × List Char) :=
  (q.readChars? (s.length + 1) s).map fun (cs, rest) => (String.ofList cs, rest)

end Quoting

/-- Reads a text on one line. Only between double quotes has it escapes. -/
def readShortText? : List Char → Option (String × List Char)
  | [] => none
  | c :: rest =>
    if c = '\x22' then Quoting.read? ⟨c, true, false⟩ rest
    else if c = '\x27' then Quoting.read? ⟨c, false, false⟩ rest
    else none

/-- Reads a text. A line break at the very start of a long one is not part of it. -/
def readText? (s : List Char) : Option (String × List Char) :=
  match s with
  | a :: b :: c :: rest =>
    if a = b ∧ b = c ∧ (c = '\x22' ∨ c = '\x27') then
      let body := match rest with
        | '\n' :: rest => rest
        | rest => rest
      Quoting.read? ⟨c, c = '\x22', true⟩ body
    else readShortText? s
  | _ => readShortText? s

def isKeyChar (c : Char) : Bool := c.isAlphanum || c = '_' || c = '-'

def readName? (s : List Char) : Option (String × List Char) :=
  let name := s.takeWhile isKeyChar
  if name = [] then readShortText? s else some (String.ofList name, s.dropWhile isKeyChar)

/-- Names with dots between them, at most `most`. -/
def readNames? : Nat → List Char → Option (List String × List Char)
  | 0, _ => none
  | most + 1, s => do
    let (name, rest) ← readName? (skipSpace s)
    match skipSpace rest with
    | '.' :: rest => do
      let (names, rest) ← readNames? most rest
      some (name :: names, rest)
    | rest => some ([name], rest)

def depthLimit : Nat := 79

def readPath? (s : List Char) : Option (List String × List Char) := readNames? depthLimit s

end RowQuery.Toml
