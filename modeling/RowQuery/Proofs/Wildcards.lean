import RowQuery.Text.Wildcard
import Mathlib.Data.List.Forall2

namespace RowQuery.Text

/-- What a character of a pattern stands for. -/
inductive StandsFor : Char → List Char → Prop
  | any (piece) : StandsFor '%' piece
  | one (d) : StandsFor '_' [d]
  | itself {c} (hany : c ≠ '%') (hone : c ≠ '_') : StandsFor c [c]

/-- A text falls into pieces, one for each character of a pattern. -/
def Splits (pattern s : List Char) : Prop :=
  ∃ pieces, List.Forall₂ StandsFor pattern pieces ∧ pieces.flatten = s

variable {c : Char} {pattern s : List Char}

theorem standsFor_any (piece : List Char) : StandsFor '%' piece ↔ True := iff_of_true (.any piece) trivial

theorem standsFor_of_ne (h : c ≠ '%') {piece : List Char} :
    StandsFor c piece ↔ ∃ d, piece = [d] ∧ (c = '_' ∨ c = d) := by
  constructor
  · intro hpiece
    cases hpiece with
    | any => exact absurd rfl h
    | one d => exact ⟨d, rfl, .inl rfl⟩
    | itself => exact ⟨c, rfl, .inr rfl⟩
  · rintro ⟨d, rfl, rfl | rfl⟩
    · exact .one d
    · by_cases hone : c = '_'
      · exact hone ▸ .one '_'
      · exact .itself h hone

theorem splits_nil : Splits [] s ↔ s = [] := by
  simp [Splits, eq_comm]

theorem splits_cons : Splits (c :: pattern) s ↔ ∃ piece rest, StandsFor c piece ∧ Splits pattern rest ∧
    s = piece ++ rest := by
  simp only [Splits, List.forall₂_cons_left_iff]
  constructor
  · rintro ⟨_, ⟨piece, pieces, hpiece, hpieces, rfl⟩, rfl⟩
    exact ⟨piece, pieces.flatten, hpiece, ⟨pieces, hpieces, rfl⟩, rfl⟩
  · rintro ⟨piece, _, hpiece, ⟨pieces, hpieces, rfl⟩, rfl⟩
    exact ⟨piece :: pieces, ⟨piece, pieces, hpiece, hpieces, rfl⟩, rfl⟩

theorem matchesPattern_any : matchesPattern ('%' :: pattern) s = true ↔
    ∃ piece rest, s = piece ++ rest ∧ matchesPattern pattern rest = true := by
  show (suffixes s).any (matchesPattern pattern) = true ↔ _
  simp only [List.any_eq_true, mem_suffixes]
  constructor
  · rintro ⟨rest, ⟨piece, hs⟩, hrest⟩
    exact ⟨piece, rest, hs, hrest⟩
  · rintro ⟨piece, rest, hs, hrest⟩
    exact ⟨rest, ⟨piece, hs⟩, hrest⟩

theorem matchesPattern_of_ne (h : c ≠ '%') : matchesPattern (c :: pattern) s = true ↔
    ∃ d rest, s = d :: rest ∧ (c = '_' ∨ c = d) ∧ matchesPattern pattern rest = true := by
  cases s with
  | nil => simp [matchesPattern, h]
  | cons d rest => simp [matchesPattern, h]

theorem matchesPattern_iff_splits : matchesPattern pattern s = true ↔ Splits pattern s := by
  induction pattern generalizing s with
  | nil => simp [matchesPattern, splits_nil]
  | cons c pattern ih =>
      rw [splits_cons]
      by_cases h : c = '%'
      · subst h
        simp only [matchesPattern_any, ih, standsFor_any, true_and]
        exact exists₂_congr fun piece rest => and_comm
      · simp only [matchesPattern_of_ne h, ih, standsFor_of_ne h]
        constructor
        · rintro ⟨d, rest, rfl, hd, hrest⟩
          exact ⟨[d], rest, ⟨d, rfl, hd⟩, hrest, rfl⟩
        · rintro ⟨_, rest, ⟨d, rfl, hd⟩, hrest, rfl⟩
          exact ⟨d, rest, rfl, hd, hrest⟩

/-- The matcher with a bound on how deep its calls may be nested; it gives nothing where one goes deeper. -/
def matchesWithin : Nat → List Char → List Char → Option Bool
  | 0, _, _ => none
  | _ + 1, [], s => some s.isEmpty
  | depth + 1, c :: pattern, s =>
    if c = '%' then (suffixes s).anyM (matchesWithin depth pattern)
    else match s with
      | [] => some false
      | d :: s => if c = '_' || c = d then matchesWithin depth pattern s else some false

theorem anyM_of_some {α : Type} {f : α → Option Bool} {p : α → Bool} (h : ∀ a, f a = some (p a)) (l : List α) :
    l.anyM f = some (l.any p) := by
  induction l with
  | nil => rfl
  | cons a rest ih =>
      rw [List.anyM_cons, h, List.any_cons]
      cases p a with
      | true => rfl
      | false => exact ih

theorem matchesWithin_length (pattern : List Char) (depth : Nat) (s : List Char) :
    matchesWithin (pattern.length + depth + 1) pattern s = some (matchesPattern pattern s) := by
  induction pattern generalizing s with
  | nil => rfl
  | cons c pattern ih =>
      rw [List.length_cons, Nat.add_right_comm pattern.length]
      by_cases h : c = '%'
      · simp only [matchesWithin, matchesPattern, if_pos h]
        exact anyM_of_some ih (suffixes s)
      · cases s with
        | nil => simp [matchesWithin, matchesPattern, h]
        | cons d rest =>
            simp only [matchesWithin, matchesPattern, if_neg h, ih]
            cases c = '_' || c = d <;> rfl

theorem matchesPattern_append_congr {p q : List Char} (h : ∀ s, matchesPattern p s = matchesPattern q s)
    (before s : List Char) : matchesPattern (before ++ p) s = matchesPattern (before ++ q) s := by
  induction before generalizing s with
  | nil => exact h s
  | cons c before ih => simp only [List.cons_append, matchesPattern, funext ih]

theorem matchesPattern_any_any (pattern s : List Char) :
    matchesPattern ('%' :: '%' :: pattern) s = matchesPattern ('%' :: pattern) s := by
  rw [Bool.eq_iff_iff, matchesPattern_any]
  simp only [matchesPattern_any]
  constructor
  · rintro ⟨first, _, rfl, second, rest, rfl, hrest⟩
    exact ⟨first ++ second, rest, (List.append_assoc first second rest).symm, hrest⟩
  · rintro ⟨piece, rest, rfl, hrest⟩
    exact ⟨piece, rest, rfl, [], rest, rfl, hrest⟩

theorem matchesPattern_run (n : Nat) (pattern s : List Char) :
    matchesPattern (List.replicate (n + 1) '%' ++ pattern) s = matchesPattern ('%' :: pattern) s := by
  induction n generalizing s with
  | zero => rfl
  | succ n ih =>
      calc matchesPattern (List.replicate (n + 2) '%' ++ pattern) s
          = matchesPattern (['%'] ++ (List.replicate (n + 1) '%' ++ pattern)) s := rfl
        _ = matchesPattern (['%'] ++ '%' :: pattern) s := matchesPattern_append_congr ih ['%'] s
        _ = matchesPattern ('%' :: pattern) s := matchesPattern_any_any pattern s

/-- A text matches a pattern if and only if it falls into pieces for its characters. The matcher finds out without
nesting its calls deeper than the pattern is long, and a run of `%` is as good as one. -/
theorem matches_iff_splits (pattern s : List Char) :
    (matchesPattern pattern s = true ↔
      ∃ pieces, List.Forall₂ StandsFor pattern pieces ∧ pieces.flatten = s) ∧
    (∀ depth, matchesWithin (pattern.length + depth + 1) pattern s = some (matchesPattern pattern s)) ∧
    ∀ before n after, matchesPattern (before ++ (List.replicate (n + 1) '%' ++ after)) s =
      matchesPattern (before ++ '%' :: after) s :=
  ⟨matchesPattern_iff_splits, fun depth => matchesWithin_length pattern depth s,
    fun before n after => matchesPattern_append_congr (matchesPattern_run n after) before s⟩

end RowQuery.Text
