import RowQuery.Text.CaseTable

namespace RowQuery.Text

def isAsciiUpper (n : Nat) : Bool := 65 ≤ n && n ≤ 90

/-- The lower-case form of one character on its own; only the dotted capital I becomes two characters. -/
def lowerChar (c : Char) : List Char :=
  let n := c.toNat
  if n < 128 then [if isAsciiUpper n then Char.ofNat (n + 32) else c]
  else if n = 0x130 then ['i', Char.ofNat 0x307]
  else match lowerRuns.find? (·.covers n) with
    | some run => [Char.ofNat (n + run.shift).toNat]
    | none => [c]

def meetsCased (s : List Char) : Bool :=
  match s.dropWhile fun c => inRanges ignorableRanges c.toNat with
  | c :: _ => inRanges casedRanges c.toNat
  | [] => false

def capitalSigma : Char := Char.ofNat 0x3A3

/-- A capital sigma takes its final form where a cased letter stands before it and none after it. -/
def lowerSigma (before after : List Char) : Char :=
  if meetsCased before && !meetsCased after then Char.ofNat 0x3C2 else Char.ofNat 0x3C3

def lowerFrom (before : List Char) : List Char → List Char
  | [] => []
  | c :: rest =>
    (if c = capitalSigma then [lowerSigma before rest] else lowerChar c) ++ lowerFrom (c :: before) rest

/-- The lower-case form of a text by the full Unicode rules. -/
def lower (s : List Char) : List Char := lowerFrom [] s

def lowered (s : String) : String := String.ofList (lower s.toList)

theorem lowerChar_ascii {c : Char} (h : c.toNat < 128) :
    lowerChar c = [if isAsciiUpper c.toNat then Char.ofNat (c.toNat + 32) else c] := by
  simp [lowerChar, h]

end RowQuery.Text
