namespace RowQuery.Text

/-- The characters with the Unicode property White_Space. -/
def isBlank (c : Char) : Bool :=
  let n := c.toNat
  (9 ≤ n && n ≤ 13) || n == 0x20 || n == 0x85 || n == 0xA0 || n == 0x1680 || (0x2000 ≤ n && n ≤ 0x200A)
    || n == 0x2028 || n == 0x2029 || n == 0x202F || n == 0x205F || n == 0x3000

theorem isBlank_of_isWhitespace {c : Char} (h : c.isWhitespace = true) : isBlank c = true := by
  simp only [Char.isWhitespace, Bool.or_eq_true, decide_eq_true_eq] at h
  rcases h with ((rfl | rfl) | rfl) | rfl <;> decide

def trimStart (s : List Char) : List Char := s.dropWhile isBlank

def trimEnd (s : List Char) : List Char := (trimStart s.reverse).reverse

def trim (s : List Char) : List Char := trimEnd (trimStart s)

def trimmed (s : String) : String := String.ofList (trim s.toList)

theorem trimStart_eq_self {s : List Char} (h : ∀ c ∈ s.head?, isBlank c = false) : trimStart s = s := by
  cases s with
  | nil => rfl
  | cons c cs =>
      have hc : isBlank c = false := h c (by simp)
      simp [trimStart, List.dropWhile, hc]

theorem trim_eq_self {s : List Char} (hfirst : ∀ c ∈ s.head?, isBlank c = false)
    (hlast : ∀ c ∈ s.getLast?, isBlank c = false) : trim s = s := by
  rw [trim, trimStart_eq_self hfirst, trimEnd, trimStart_eq_self, List.reverse_reverse]
  simpa [List.head?_reverse] using hlast

theorem trimStart_append {before : List Char} (h : ∀ c ∈ before, isBlank c = true) (s : List Char) :
    trimStart (before ++ s) = trimStart s :=
  List.dropWhile_append_of_pos h

theorem trimEnd_append {after : List Char} (h : ∀ c ∈ after, isBlank c = true) (s : List Char) :
    trimEnd (s ++ after) = trimEnd s := by
  rw [trimEnd, List.reverse_append, trimStart_append fun c hc => h c (List.mem_reverse.mp hc), trimEnd]

/-- Of a text between blanks only the blanks are cut off if it neither begins nor ends with one. -/
theorem trim_between {before s after : List Char} {first last : Char} (hbefore : ∀ c ∈ before, isBlank c = true)
    (hafter : ∀ c ∈ after, isBlank c = true) (hfirst : s.head? = some first) (hf : isBlank first = false)
    (hlast : s.getLast? = some last) (hl : isBlank last = false) : trim (before ++ s ++ after) = s := by
  have hstart : trimStart (s ++ after) = s ++ after := trimStart_eq_self (by simp [List.head?_append, hfirst, hf])
  have hend : trimEnd s = s := by
    rw [trimEnd, trimStart_eq_self (by simp [List.head?_reverse, hlast, hl]), List.reverse_reverse]
  rw [trim, List.append_assoc, trimStart_append hbefore, hstart, trimEnd_append hafter, hend]

theorem not_isBlank_of_trimStart {s : List Char} {c : Char} (h : c ∈ (trimStart s).head?) : isBlank c = false := by
  have hfirst := List.head?_dropWhile_not isBlank s
  rw [show (s.dropWhile isBlank).head? = some c from h] at hfirst
  exact hfirst

theorem trimEnd_prefix (s : List Char) : trimEnd s <+: s := by
  have hsuffix : trimStart s.reverse <:+ s.reverse := List.dropWhile_suffix isBlank
  simpa [trimEnd] using List.reverse_prefix.mpr hsuffix

theorem trim_trim (s : List Char) : trim (trim s) = trim s := by
  refine trim_eq_self (fun c hc => ?_) (fun c hc => ?_)
  · obtain ⟨rest, hrest⟩ := trimEnd_prefix (trimStart s)
    have hfirst : (trimStart s).head? = some c := by
      rw [← hrest, List.head?_append, show (trimEnd (trimStart s)).head? = some c from hc]
      rfl
    exact not_isBlank_of_trimStart hfirst
  · have hlast : (trimStart (trimStart s).reverse).head? = some c := by rwa [trim, trimEnd, List.getLast?_reverse] at hc
    exact not_isBlank_of_trimStart hlast

theorem trim_eq_nil {s : List Char} (h : ∀ c ∈ s, isBlank c = true) : trim s = [] := by
  have hstart := trimStart_append h []
  rw [List.append_nil] at hstart
  rw [trim, hstart]
  rfl

end RowQuery.Text
