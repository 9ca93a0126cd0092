import RowQuery.Settings.Path

namespace RowQuery

namespace Text

theorem lowerFrom_eq_self {s : List Char} (h : ∀ c ∈ s, c.toNat < 128 ∧ isAsciiUpper c.toNat = false)
    (before : List Char) : lowerFrom before s = s := by
  induction s generalizing before with
  | nil => rfl
  | cons c rest ih =>
      obtain ⟨⟨hascii, hupper⟩, hrest⟩ := List.forall_mem_cons.mp h
      have hsigma : c ≠ capitalSigma := by
        rintro rfl
        exact absurd hascii (by decide)
      rw [lowerFrom, if_neg hsigma, lowerChar_ascii hascii, ih hrest, hupper]
      rfl

theorem lowered_eq_self {s : String} (h : ∀ c ∈ s.toList, c.toNat < 128 ∧ isAsciiUpper c.toNat = false) :
    lowered s = s := by
  rw [lowered, lower, lowerFrom_eq_self h, String.ofList_toList]

end Text

namespace Path

theorem readSteps?_name (fuel : Nat) (s : List Char) : readSteps? (fuel + 1) ('.' :: s) =
    (readName? s).bind fun read => (readSteps? fuel read.2).map (.name read.1 :: ·) := by
  rw [readSteps?]
  simp only [Option.map_eq_bind]
  rfl

theorem readSteps?_nil (fuel : Nat) : readSteps? fuel [] = some [] := by
  cases fuel <;> rfl

/-- A key is read as a path that starts with a name. -/
theorem exists_ofKey (key : String) : ∃ name steps, ofKey key = .name name :: steps := by
  unfold ofKey ofText?
  rw [readSteps?_name]
  cases readName? (Text.lowered key).toList with
  | none => exact ⟨key, [], rfl⟩
  | some read =>
      rw [Option.bind_some]
      cases readSteps? (Text.lowered key).length read.2 with
      | none => exact ⟨key, [], rfl⟩
      | some steps => exact ⟨read.1, steps, rfl⟩

/-- A name that is read from a key as it stands there. -/
def isPlainName (s : String) : Bool :=
  s ≠ "" && s.toList.all fun c => isNameChar c && c.toNat < 128 && !Text.isAsciiUpper c.toNat

theorem isPlainName_iff {s : String} : isPlainName s = true ↔
    s ≠ "" ∧ ∀ c ∈ s.toList, isNameChar c = true ∧ c.toNat < 128 ∧ Text.isAsciiUpper c.toNat = false := by
  simp [isPlainName, and_assoc]

variable {table name : String}

theorem lowered_plainName (h : isPlainName name = true) : Text.lowered name = name :=
  Text.lowered_eq_self fun c hc => ((isPlainName_iff.mp h).2 c hc).2

theorem readName?_plainName (h : isPlainName name = true) {rest : List Char}
    (hrest : rest.head?.any isNameChar = false) : readName? (name.toList ++ rest) = some (name, rest) := by
  obtain ⟨hne, hname⟩ := isPlainName_iff.mp h
  have hchars : ∀ c ∈ name.toList, isNameChar c = true := fun c hc => (hname c hc).1
  have hstop : rest.takeWhile isNameChar = [] ∧ rest.dropWhile isNameChar = rest := by
    cases rest with
    | nil => simp
    | cons c rest =>
        have hc : isNameChar c = false := by simpa using hrest
        simp [hc]
  rw [readName?, List.takeWhile_append_of_pos hchars, List.dropWhile_append_of_pos hchars, hstop.1, hstop.2]
  simp [hne]

theorem readName?_toList (h : isPlainName name = true) : readName? name.toList = some (name, []) := by
  have happend : readName? (name.toList ++ []) = some (name, []) := readName?_plainName h rfl
  rwa [List.append_nil] at happend

theorem ofKey_plainName (h : isPlainName name = true) : ofKey name = [.name name] := by
  unfold ofKey ofText?
  rw [lowered_plainName h, readSteps?_name, readName?_toList h, Option.bind_some, readSteps?_nil]
  rfl

/-- Two plain names with a dot between them are read as the path of the two. -/
theorem ofKey_dotted (ht : isPlainName table = true) (hn : isPlainName name = true) :
    ofKey (table ++ "." ++ name) = [.name table, .name name] := by
  have hlowered : Text.lowered (table ++ "." ++ name) = table ++ "." ++ name := by
    refine Text.lowered_eq_self fun c hc => ?_
    simp only [String.toList_append, List.mem_append] at hc
    obtain (hc | hc) | hc := hc
    · exact ((isPlainName_iff.mp ht).2 c hc).2
    · obtain rfl := List.mem_singleton.mp hc
      decide
    · exact ((isPlainName_iff.mp hn).2 c hc).2
  have hlength : (table ++ "." ++ name).length + 1 = table.length + name.length + 1 + 1 := by
    rw [String.length_append, String.length_append, show ".".length = 1 from rfl]
    omega
  have htable : readName? (table.toList ++ '.' :: name.toList) = some (table, '.' :: name.toList) :=
    readName?_plainName ht rfl
  have htoList : (table ++ "." ++ name).toList = table.toList ++ '.' :: name.toList := by
    rw [String.toList_append, String.toList_append, List.append_assoc]
    rfl
  unfold ofKey ofText?
  rw [hlowered, hlength, htoList, readSteps?_name, htable, Option.bind_some, readSteps?_name, readName?_toList hn,
    Option.bind_some, readSteps?_nil]
  rfl

end Path

end RowQuery
