namespace RowQuery.Text

def suffixes : List Char → List (List Char)
  | [] => [[]]
  | c :: s => (c :: s) :: suffixes s

/-- Whether a text matches a pattern, in which `%` stands for any characters, `_` for any one character
and every other character for itself. -/
def matchesPattern : List Char → List Char → Bool
  | [], s => s.isEmpty
  | c :: pattern, s =>
    if c = '%' then (suffixes s).any (matchesPattern pattern)
    else match s with
      | [] => false
      | d :: s => (c = '_' || c = d) && matchesPattern pattern s

theorem mem_suffixes {s t : List Char} : t ∈ suffixes s ↔ ∃ p, s = p ++ t := by
  induction s with
  | nil => simp [suffixes]
  | cons c s ih =>
      simp only [suffixes, List.mem_cons, ih]
      constructor
      · rintro (rfl | ⟨p, rfl⟩)
        · exact ⟨[], rfl⟩
        · exact ⟨c :: p, rfl⟩
      · rintro ⟨p, hp⟩
        cases p with
        | nil => exact .inl hp.symm
        | cons d p => exact .inr ⟨p, (List.cons.inj hp).2⟩

end RowQuery.Text
