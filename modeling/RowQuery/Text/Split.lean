namespace RowQuery.Text

/-- The pieces between the occurrences of `c`, at least one. -/
def splitOn (c : Char) : List Char → List (List Char)
  | [] => [[]]
  | d :: rest =>
    if d = c then [] :: splitOn c rest
    else match splitOn c rest with
      | [] => [[d]]
      | piece :: pieces => (d :: piece) :: pieces

def splitText (c : Char) (s : String) : List String := (splitOn c s.toList).map String.ofList

def join (separator : List Char) : List (List Char) → List Char
  | [] => []
  | [piece] => piece
  | piece :: pieces => piece ++ separator ++ join separator pieces

variable {c d : Char} {s piece : List Char} {pieces : List (List Char)}

theorem splitOn_self (c : Char) (s : List Char) : splitOn c (c :: s) = [] :: splitOn c s := by
  rw [splitOn, if_pos rfl]

theorem splitOn_of_ne (hd : d ≠ c) (h : splitOn c s = piece :: pieces) :
    splitOn c (d :: s) = (d :: piece) :: pieces := by
  rw [splitOn, if_neg hd, h]

theorem exists_splitOn (c : Char) (s : List Char) : ∃ piece pieces, splitOn c s = piece :: pieces := by
  induction s with
  | nil => exact ⟨[], [], rfl⟩
  | cons d rest ih =>
      obtain ⟨piece, pieces, hrest⟩ := ih
      by_cases hd : d = c
      · exact ⟨[], splitOn c rest, hd ▸ splitOn_self d rest⟩
      · exact ⟨d :: piece, pieces, splitOn_of_ne hd hrest⟩

theorem splitOn_ne_nil (c : Char) (s : List Char) : splitOn c s ≠ [] := by
  obtain ⟨piece, pieces, hs⟩ := exists_splitOn c s
  exact hs ▸ List.cons_ne_nil piece pieces

theorem splitOn_of_not_mem (h : c ∉ s) : splitOn c s = [s] := by
  induction s with
  | nil => rfl
  | cons d rest ih =>
      have hd : d ≠ c := fun e => h (e ▸ List.mem_cons_self)
      exact splitOn_of_ne hd (ih fun m => h (List.mem_cons_of_mem d m))

theorem splitOn_append (h : c ∉ s) (t : List Char) : splitOn c (s ++ c :: t) = s :: splitOn c t := by
  induction s with
  | nil => exact splitOn_self c t
  | cons d rest ih =>
      have hd : d ≠ c := fun e => h (e ▸ List.mem_cons_self)
      exact splitOn_of_ne hd (ih fun m => h (List.mem_cons_of_mem d m))

theorem join_cons (separator piece : List Char) (h : pieces ≠ []) :
    join separator (piece :: pieces) = piece ++ separator ++ join separator pieces := by
  cases pieces with
  | nil => exact absurd rfl h
  | cons => rfl

theorem join_cons_cons (separator : List Char) (d : Char) (piece : List Char) (pieces : List (List Char)) :
    join separator ((d :: piece) :: pieces) = d :: join separator (piece :: pieces) := by
  cases pieces <;> rfl

theorem join_splitOn (c : Char) (s : List Char) : join [c] (splitOn c s) = s := by
  induction s with
  | nil => rfl
  | cons d rest ih =>
      by_cases hd : d = c
      · rw [hd, splitOn_self, join_cons [c] [] (splitOn_ne_nil c rest), ih]
        rfl
      · obtain ⟨piece, pieces, hrest⟩ := exists_splitOn c rest
        rw [splitOn_of_ne hd hrest, join_cons_cons, ← hrest, ih]

theorem length_splitOn (c : Char) (s : List Char) : (splitOn c s).length = s.count c + 1 := by
  induction s with
  | nil => rfl
  | cons d rest ih =>
      by_cases hd : d = c
      · rw [hd, splitOn_self, List.length_cons, ih, List.count_cons_self]
      · obtain ⟨piece, pieces, hrest⟩ := exists_splitOn c rest
        rw [splitOn_of_ne hd hrest, List.count_cons_of_ne hd, ← ih, hrest]
        rfl

theorem not_mem_of_mem_splitOn (h : piece ∈ splitOn c s) : c ∉ piece := by
  induction s generalizing piece with
  | nil =>
      obtain rfl := List.mem_singleton.mp h
      exact List.not_mem_nil
  | cons d rest ih =>
      by_cases hd : d = c
      · rw [hd, splitOn_self] at h
        rcases List.mem_cons.mp h with rfl | h
        · exact List.not_mem_nil
        · exact ih h
      · obtain ⟨first, pieces, hrest⟩ := exists_splitOn c rest
        rw [splitOn_of_ne hd hrest] at h
        rcases List.mem_cons.mp h with rfl | h
        · have hfirst : c ∉ first := ih (hrest ▸ List.mem_cons_self)
          simpa [Ne.symm hd] using hfirst
        · exact ih (hrest ▸ List.mem_cons_of_mem first h)

theorem splitOn_eq_pair {p q : List Char} :
    splitOn c s = [p, q] ↔ s = p ++ c :: q ∧ c ∉ p ∧ c ∉ q := by
  constructor
  · intro h
    have hp : p ∈ splitOn c s := h ▸ List.mem_cons_self
    have hq : q ∈ splitOn c s := h ▸ List.mem_cons_of_mem p List.mem_cons_self
    refine ⟨?_, not_mem_of_mem_splitOn hp, not_mem_of_mem_splitOn hq⟩
    rw [← join_splitOn c s, h]
    simp [join]
  · rintro ⟨rfl, hp, hq⟩
    rw [splitOn_append hp, splitOn_of_not_mem hq]

end RowQuery.Text
