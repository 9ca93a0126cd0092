import RowQuery.Proofs.ComparisonLaws
import RowQuery.Proofs.Literals

namespace RowQuery

namespace Text

theorem splitOn_append_sep (c : Char) (s t : List Char) : splitOn c (s ++ c :: t) = splitOn c s ++ splitOn c t := by
  induction s with
  | nil => exact splitOn_self c t
  | cons d rest ih =>
      by_cases hd : d = c
      · rw [hd, List.cons_append, splitOn_self, splitOn_self, ih, List.cons_append]
      · obtain ⟨piece, pieces, hrest⟩ := exists_splitOn c rest
        rw [hrest, List.cons_append] at ih
        rw [List.cons_append, splitOn_of_ne hd ih, splitOn_of_ne hd hrest, List.cons_append]

theorem splitOn_inj {c : Char} {s t : List Char} (h : splitOn c s = splitOn c t) : s = t := by
  rw [← join_splitOn c s, h, join_splitOn]

/-- One more character in front of a text changes its first piece only. -/
theorem mem_splitOn_cons {c d : Char} (hd : d ≠ c) {s piece : List Char} (h : piece ∈ splitOn c (d :: s)) :
    piece ∈ splitOn c s ∨ d ∈ piece := by
  obtain ⟨first, pieces, hpieces⟩ := exists_splitOn c s
  rw [splitOn_of_ne hd hpieces] at h
  rw [hpieces]
  rcases List.mem_cons.mp h with rfl | h
  · exact .inr List.mem_cons_self
  · exact .inl (List.mem_cons_of_mem first h)

theorem splitOn_concat {c d : Char} (hd : d ≠ c) (s : List Char) :
    ∃ pieces last, splitOn c s = pieces ++ [last] ∧ splitOn c (s ++ [d]) = pieces ++ [last ++ [d]] := by
  induction s with
  | nil => exact ⟨[], [], rfl, splitOn_of_ne hd rfl⟩
  | cons e rest ih =>
      obtain ⟨pieces, last, hrest, hconcat⟩ := ih
      rw [List.cons_append]
      by_cases he : e = c
      · rw [he, splitOn_self, splitOn_self, hrest, hconcat]
        exact ⟨[] :: pieces, last, rfl, rfl⟩
      · cases pieces with
        | nil => exact ⟨[], e :: last, splitOn_of_ne he hrest, splitOn_of_ne he hconcat⟩
        | cons piece pieces =>
            exact ⟨(e :: piece) :: pieces, last, splitOn_of_ne he hrest, splitOn_of_ne he hconcat⟩

/-- One more character behind a text changes its last piece only. -/
theorem mem_splitOn_concat {c d : Char} (hd : d ≠ c) {s piece : List Char} (h : piece ∈ splitOn c (s ++ [d])) :
    piece ∈ splitOn c s ∨ d ∈ piece := by
  obtain ⟨pieces, last, hs, hconcat⟩ := splitOn_concat hd s
  rw [hconcat] at h
  rw [hs]
  rcases List.mem_append.mp h with h | h
  · exact .inl (List.mem_append_left _ h)
  · obtain rfl := List.mem_singleton.mp h
    exact .inr List.mem_concat_self

end Text

namespace Sql

/-- Whether a literal is open behind a text, from whether one is open in front of it. -/
def quotedAfter (quoted : Bool) (s : List Char) : Bool :=
  s.foldl (fun quoted c => if c = apostrophe then !quoted else quoted) quoted

/-- A text with its literals blotted out: every character of a literal, and its apostrophes, become apostrophes. -/
def masked : Bool → List Char → List Char
  | _, [] => []
  | quoted, c :: rest =>
    if c = apostrophe then apostrophe :: masked (!quoted) rest
    else (if quoted then apostrophe else c) :: masked quoted rest

def outside (s : List Char) : List Char := masked false s

/-- The number of open parentheses behind a text, unless it closes one that is not open. -/
def depth? : Nat → List Char → Option Nat
  | n, [] => some n
  | n, c :: rest =>
    if c = '(' then depth? (n + 1) rest
    else if c = ')' then if n = 0 then none else depth? (n - 1) rest
    else depth? n rest

/-- What of a text is not in parentheses, with the parentheses around what is left out. -/
def surface : Nat → List Char → List Char
  | _, [] => []
  | n, c :: rest =>
    if c = '(' then (if n = 0 then ['('] else []) ++ surface (n + 1) rest
    else if c = ')' then (if n ≤ 1 then [')'] else []) ++ surface (n - 1) rest
    else (if n = 0 then [c] else []) ++ surface n rest

theorem masked_append (quoted : Bool) (s t : List Char) :
    masked quoted (s ++ t) = masked quoted s ++ masked (quotedAfter quoted s) t := by
  induction s generalizing quoted with
  | nil => rfl
  | cons c rest ih =>
      have hstep : quotedAfter quoted (c :: rest) = quotedAfter (if c = apostrophe then !quoted else quoted) rest := rfl
      rw [List.cons_append, masked, masked, ih, ih, hstep]
      split <;> rfl

/-- What the reader of literals passes over is what is blotted out. -/
theorem masked_of_readQuoted? {s content rest : List Char} (h : readQuoted? s = some (content, rest)) :
    ∃ n, masked true s = List.replicate n apostrophe ++ outside rest ∧ quotedAfter true s = quotedAfter false rest := by
  fun_induction readQuoted? s generalizing content with
  | case1 => cases h
  | case2 s ih =>
      obtain ⟨content', hread, -⟩ := map_fst_eq_some h
      obtain ⟨n, hmasked, hquoted⟩ := ih hread
      refine ⟨n + 2, ?_, hquoted⟩
      rw [List.replicate_succ, List.replicate_succ, List.cons_append, List.cons_append, ← hmasked]
      rfl
  | case3 s =>
      obtain ⟨-, rfl⟩ := Prod.mk.inj (Option.some.inj h)
      exact ⟨1, rfl, rfl⟩
  | case4 c s _ hc ih =>
      obtain ⟨content', hread, -⟩ := map_fst_eq_some h
      obtain ⟨n, hmasked, hquoted⟩ := ih hread
      have hkeeps : c ≠ apostrophe := hc
      refine ⟨n + 1, ?_, ?_⟩
      · rw [masked, if_neg hkeeps, List.replicate_succ, List.cons_append, ← hmasked]
        rfl
      · rw [quotedAfter, List.foldl_cons, if_neg hkeeps]
        exact hquoted

theorem depth?_append (n : Nat) (s t : List Char) : depth? n (s ++ t) = (depth? n s).bind (depth? · t) := by
  induction s generalizing n with
  | nil => rfl
  | cons c rest ih =>
      rw [List.cons_append, depth?, depth?]
      split_ifs
      · exact ih _
      · rfl
      · exact ih _
      · exact ih _

theorem depth?_of_flat {s : List Char} (hopen : '(' ∉ s) (hclose : ')' ∉ s) (n : Nat) : depth? n s = some n := by
  induction s with
  | nil => rfl
  | cons c rest ih =>
      have hfirst : c ≠ '(' ∧ c ≠ ')' :=
        ⟨fun hc => hopen (hc ▸ List.mem_cons_self), fun hc => hclose (hc ▸ List.mem_cons_self)⟩
      rw [depth?, if_neg hfirst.1, if_neg hfirst.2]
      exact ih (mt (List.mem_cons_of_mem c) hopen) (mt (List.mem_cons_of_mem c) hclose)

variable {n k : Nat} {s t : List Char}

theorem surface_append (h : depth? n s = some k) (t : List Char) : surface n (s ++ t) = surface n s ++ surface k t := by
  induction s generalizing n with
  | nil =>
      obtain rfl := Option.some.inj h
      rfl
  | cons c rest ih =>
      rw [depth?] at h
      rw [List.cons_append, surface, surface]
      split_ifs at h ⊢ <;> simp [ih h]

/-- Inside parentheses nothing is on the surface. -/
theorem surface_inside (h : depth? n s = some k) : surface (n + 1) s = [] := by
  induction s generalizing n with
  | nil => rfl
  | cons c rest ih =>
      rw [depth?] at h
      rw [surface]
      by_cases hopen : c = '('
      · rw [if_pos hopen] at h ⊢
        exact ih h
      · rw [if_neg hopen] at h ⊢
        by_cases hclose : c = ')'
        · rw [if_pos hclose] at h ⊢
          cases n with
          | zero => cases h
          | succ n => exact ih h
        · rw [if_neg hclose] at h ⊢
          exact ih h

/-- A text that ends outside of literals and closes the parentheses that it opens. -/
structure Level (s : List Char) : Prop where
  closed : quotedAfter false s = false
  balanced : ∀ n, depth? n (outside s) = some n

theorem quotedAfter_append (h : quotedAfter false s = false) (t : List Char) :
    quotedAfter false (s ++ t) = quotedAfter false t := by
  rw [quotedAfter, List.foldl_append]
  exact congrArg (quotedAfter · t) h

theorem outside_append (h : quotedAfter false s = false) (t : List Char) :
    outside (s ++ t) = outside s ++ outside t := by
  rw [outside, masked_append, h]
  rfl

theorem outside_of_not_mem (h : apostrophe ∉ s) : outside s = s ∧ quotedAfter false s = false := by
  induction s with
  | nil => exact ⟨rfl, rfl⟩
  | cons c rest ih =>
      have hc : c ≠ apostrophe := fun hc => h (hc ▸ List.mem_cons_self)
      obtain ⟨hrest, hclosed⟩ := ih (mt (List.mem_cons_of_mem c) h)
      refine ⟨?_, ?_⟩
      · rw [outside, masked, if_neg hc]
        exact congrArg (c :: ·) hrest
      · rw [quotedAfter, List.foldl_cons, if_neg hc]
        exact hclosed

namespace Level

theorem append (hs : Level s) (ht : Level t) : Level (s ++ t) where
  closed := (quotedAfter_append hs.closed t).trans ht.closed
  balanced n := by
    rw [outside_append hs.closed, depth?_append, hs.balanced]
    exact ht.balanced n

theorem nil : Level [] := ⟨rfl, fun _ => rfl⟩

theorem of_flat (hclosed : quotedAfter false s = false) (hopen : '(' ∉ outside s) (hclose : ')' ∉ outside s) :
    Level s :=
  ⟨hclosed, depth?_of_flat hopen hclose⟩

end Level

theorem outside_parenthesised (h : quotedAfter false s = false) :
    outside ('(' :: s ++ [')']) = '(' :: outside s ++ [')'] :=
  congrArg ('(' :: ·) (outside_append h [')'])

theorem Level.parenthesised (h : Level s) : Level ('(' :: s ++ [')']) where
  closed := quotedAfter_append h.closed [')']
  balanced n := by
    rw [outside_parenthesised h.closed]
    show depth? (n + 1) (outside s ++ [')']) = some n
    rw [depth?_append, h.balanced]
    rfl

theorem Level.flatMap {α : Type} {l : List α} {f : α → List Char} (h : ∀ a ∈ l, Level (f a)) :
    Level (l.flatMap f) := by
  induction l with
  | nil => exact .nil
  | cons a l ih =>
      obtain ⟨ha, hl⟩ := List.forall_mem_cons.mp h
      exact ha.append (ih hl)

/-- What of a text is neither in a literal nor in parentheses. -/
def shown (s : List Char) : List Char := surface 0 (outside s)

theorem shown_append (h : Level s) (t : List Char) : shown (s ++ t) = shown s ++ shown t := by
  rw [shown, outside_append h.closed]
  exact surface_append (h.balanced 0) (outside t)

theorem shown_parenthesised (h : Level s) : shown ('(' :: s ++ [')']) = ['(', ')'] := by
  rw [shown, outside_parenthesised h.closed]
  show '(' :: surface 1 (outside s ++ [')']) = ['(', ')']
  rw [surface_append (h.balanced 1), surface_inside (h.balanced 0)]
  rfl

theorem shown_flatMap {α : Type} {l : List α} {f : α → List Char} (h : ∀ a ∈ l, Level (f a)) :
    shown (l.flatMap f) = l.flatMap fun a => shown (f a) := by
  induction l with
  | nil => rfl
  | cons a l ih =>
      obtain ⟨ha, hl⟩ := List.forall_mem_cons.mp h
      rw [List.flatMap_cons, shown_append ha, ih hl]
      rfl

/-- The pieces between the blanks of a text, of those that are outside of literals. -/
def words (s : List Char) : List (List Char) := Text.splitOn ' ' (outside s)

def orWord : List Char := ['O', 'R']

theorem words_spaced (h : quotedAfter false s = false) (t : List Char) :
    words (s ++ ' ' :: t) = words s ++ words t := by
  rw [words, outside_append h]
  exact Text.splitOn_append_sep ' ' (outside s) (outside t)

/-- A level text in which OR is not one of the words. -/
structure Inert (s : List Char) : Prop extends Level s where
  silent : orWord ∉ words s

theorem silent_opened (h : orWord ∉ words s) : orWord ∉ words ('(' :: s) := by
  intro hor
  rcases Text.mem_splitOn_cons (by decide) hor with hor | hparen
  · exact h hor
  · exact absurd hparen (by decide)

theorem silent_concat {c : Char} (hc : c ∉ [' ', 'O', 'R', apostrophe]) (hclosed : quotedAfter false s = false)
    (h : orWord ∉ words s) : orWord ∉ words (s ++ [c]) := by
  intro hor
  simp only [List.mem_cons, List.not_mem_nil, or_false, not_or] at hc
  obtain ⟨hspace, ho, hr, hquote⟩ := hc
  have hmark : outside [c] = [c] := by
    rw [outside, masked, if_neg hquote]
    rfl
  rw [words, outside_append hclosed, hmark] at hor
  rcases Text.mem_splitOn_concat hspace hor with hor | hmem
  · exact h hor
  · simp [orWord, ho, hr] at hmem

namespace Inert

theorem spaced (hs : Inert s) (ht : Inert t) : Inert (s ++ ' ' :: t) where
  toLevel := by
    have hblank : Level [' '] := .of_flat rfl (by decide) (by decide)
    exact hs.toLevel.append (hblank.append ht.toLevel)
  silent := by
    rw [words_spaced hs.closed]
    exact fun hor => (List.mem_append.mp hor).elim hs.silent ht.silent

theorem parenthesised (h : Inert s) : Inert ('(' :: s ++ [')']) where
  toLevel := h.toLevel.parenthesised
  silent := silent_concat (by decide) h.closed (silent_opened h.silent)

theorem comma (h : Inert s) : Inert (s ++ [',']) where
  toLevel := h.toLevel.append (.of_flat rfl (by decide) (by decide))
  silent := silent_concat (by decide) h.closed h.silent

theorem of_plain (hquote : apostrophe ∉ s) (hopen : '(' ∉ s) (hclose : ')' ∉ s) (hor : orWord ∉ Text.splitOn ' ' s) :
    Inert s := by
  obtain ⟨houtside, hclosed⟩ := outside_of_not_mem hquote
  rw [← houtside] at hopen hclose hor
  exact ⟨.of_flat hclosed hopen hclose, hor⟩

theorem literal (s : List Char) : Inert (literal s) := by
  obtain ⟨n, hmasked, hquoted⟩ := masked_of_readQuoted? (readQuoted?_doubled s (t := []) (by decide))
  have houtside : outside (Sql.literal s) = List.replicate (n + 1) apostrophe := by
    rw [List.replicate_succ]
    exact congrArg (apostrophe :: ·) (hmasked.trans (List.append_nil _))
  have hrun : ∀ c ∈ outside (Sql.literal s), c = apostrophe := by
    rw [houtside]
    exact fun c => List.eq_of_mem_replicate
  refine ⟨.of_flat hquoted ?_ ?_, ?_⟩
  · exact fun hopen => absurd (hrun _ hopen) (by decide)
  · exact fun hclose => absurd (hrun _ hclose) (by decide)
  · rw [words, Text.splitOn_of_not_mem fun hspace => absurd (hrun _ hspace) (by decide), List.mem_singleton]
    intro hor
    exact absurd (hrun 'O' (hor ▸ List.mem_cons_self)) (by decide)

theorem value (a : Json) : Inert (value a) := by
  rcases value_eq_literal_or_bare a with ⟨s, -, hvalue⟩ | ⟨-, -, hbare⟩
  · rw [hvalue]
    exact literal s
  · have hnone : ∀ c, isBareChar c = false → c ∉ Sql.value a :=
      fun c hc hmem => ne_of_isBareChar (hbare c hmem) hc rfl
    apply of_plain (hnone _ rfl) (hnone _ rfl) (hnone _ rfl)
    rw [Text.splitOn_of_not_mem (hnone _ rfl), List.mem_singleton]
    intro hor
    exact hnone 'O' rfl (hor ▸ List.mem_cons_self)

theorem valueList (a : Json) (values : List Json) : Inert (valueList (a :: values)).toList := by
  rw [toList_valueList_cons]
  induction values generalizing a with
  | nil => exact (List.append_nil _).symm ▸ value a
  | cons b values ih =>
      have hnext := (value a).comma.spaced (ih b)
      rw [List.append_assoc] at hnext
      exact hnext

end Inert

end Sql

/-- A name that is one word of SQL, and not the one between alternatives. -/
structure Sql.IsName (name : String) : Prop where
  noBlank : ' ' ∉ name.toList
  noQuote : apostrophe ∉ name.toList
  noOpening : '(' ∉ name.toList
  noClosing : ')' ∉ name.toList
  notOr : name ≠ "OR"

/-- A condition on a column with an ordinary name, with one of the operators where it takes one. Its values are
arbitrary. -/
def Condition.Plain : Condition → Prop
  | .compare field operator _ | .date field operator _ | .month field operator _ =>
    Sql.IsName field ∧ operator ∈ Operator.words
  | .isIn field _ | .isNotIn field _ | .between field _ _ => Sql.IsName field

namespace Sql

instance (name : String) : Decidable (IsName name) :=
  decidable_of_iff (' ' ∉ name.toList ∧ apostrophe ∉ name.toList ∧ '(' ∉ name.toList ∧ ')' ∉ name.toList ∧ name ≠ "OR")
    ⟨fun ⟨h₁, h₂, h₃, h₄, h₅⟩ => ⟨h₁, h₂, h₃, h₄, h₅⟩, fun ⟨h₁, h₂, h₃, h₄, h₅⟩ => ⟨h₁, h₂, h₃, h₄, h₅⟩⟩

end Sql

instance Condition.decidablePlain (d : Condition) : Decidable d.Plain :=
  match d with
  | .compare .. | .date .. | .month .. => inferInstanceAs (Decidable (_ ∧ _))
  | .isIn .. | .isNotIn .. | .between .. => inferInstanceAs (Decidable (Sql.IsName _))

namespace Sql

variable {field operator : String}

theorem IsName.inert (h : IsName field) : Inert field.toList := by
  apply Inert.of_plain h.noQuote h.noOpening h.noClosing
  rw [Text.splitOn_of_not_mem h.noBlank, List.mem_singleton]
  exact fun hor => h.notOr (String.toList_inj.mp hor.symm)

/-- The operators, and the other words that a condition is written with. -/
def keywords : List String :=
  Operator.words ++
    ["IS NULL", "IS NOT NULL", "IN", "NOT IN", "BETWEEN", "AND", "DATE", "MONTH", "0 = 1", "1 = 1", "1=1"]

theorem inert_keyword {w : String} (h : w ∈ keywords) : Inert w.toList := by
  have hwords : ∀ w ∈ keywords, apostrophe ∉ w.toList ∧ '(' ∉ w.toList ∧ ')' ∉ w.toList ∧
      orWord ∉ Text.splitOn ' ' w.toList := by
    decide
  obtain ⟨hquote, hopen, hclose, hor⟩ := hwords w h
  exact .of_plain hquote hopen hclose hor

/-- A function of a column is one word. -/
theorem IsName.inert_applied (h : IsName field) {f : String} (hf : f ∈ ["DATE", "MONTH"]) :
    Inert (f.toList ++ '(' :: field.toList ++ [')']) := by
  have hplain : ∀ f ∈ ["DATE", "MONTH"], f ∈ keywords ∧ apostrophe ∉ f.toList ∧ ' ' ∉ f.toList := by
    decide
  obtain ⟨hkeyword, hquote, hspace⟩ := hplain f hf
  have houtside : outside (f.toList ++ '(' :: field.toList ++ [')']) = f.toList ++ '(' :: field.toList ++ [')'] := by
    have hmarks : apostrophe ≠ '(' ∧ apostrophe ≠ ')' := by decide
    apply (outside_of_not_mem _).1
    simp [hquote, h.noQuote, hmarks]
  refine ⟨?_, ?_⟩
  · rw [List.append_assoc]
    exact (inert_keyword hkeyword).toLevel.append h.inert.toLevel.parenthesised
  · rw [words, houtside, Text.splitOn_of_not_mem, List.mem_singleton]
    · intro hor
      have hopen : '(' ∈ orWord := by
        rw [hor]
        simp
      exact absurd hopen (by decide)
    · simp [hspace, h.noBlank]

theorem inert_compared (hs : Inert s) (h : operator ∈ Operator.words) (a : Json) :
    Inert (s ++ ' ' :: (operator.toList ++ ' ' :: value a)) :=
  hs.spaced ((inert_keyword (List.mem_append_left _ h)).spaced (.value a))

theorem inert_member (h : IsName field) {w : String} (hw : w ∈ keywords) {values : List Json} (hsome : values ≠ []) :
    Inert (field.toList ++ ' ' :: (w.toList ++ ' ' :: ('(' :: (valueList values).toList ++ [')']))) := by
  obtain ⟨a, rest, rfl⟩ := List.exists_cons_of_ne_nil hsome
  exact h.inert.spaced ((inert_keyword hw).spaced (Inert.valueList a rest).parenthesised)

theorem inert_condition {d : Condition} (h : d.Plain) : Inert d.sql.toList := by
  cases d with
  | compare field operator a =>
      obtain ⟨hfield, hoperator⟩ := h
      rw [Condition.sql]
      split_ifs
      · simpa using hfield.inert.spaced (inert_keyword (w := "IS NULL") (by decide))
      · simpa using hfield.inert.spaced (inert_keyword (w := "IS NOT NULL") (by decide))
      · simpa [valueText] using inert_compared hfield.inert hoperator a
  | isIn field values =>
      rw [Condition.sql]
      split_ifs with hnone
      · exact inert_keyword (by decide)
      · simpa using inert_member h (w := "IN") (by decide) hnone
  | isNotIn field values =>
      rw [Condition.sql]
      split_ifs with hnone
      · exact inert_keyword (by decide)
      · simpa using inert_member h (w := "NOT IN") (by decide) hnone
  | between field start stop =>
      have hbounds := (Inert.value start).spaced ((inert_keyword (w := "AND") (by decide)).spaced (.value stop))
      have hrange := (IsName.inert h).spaced ((inert_keyword (w := "BETWEEN") (by decide)).spaced hbounds)
      simpa [Condition.sql, valueText] using hrange
  | date field operator a =>
      simpa [Condition.sql, valueText] using
        inert_compared (h.1.inert_applied (f := "DATE") (by decide)) h.2 a
  | month field operator a =>
      simpa [Condition.sql, valueText] using
        inert_compared (h.1.inert_applied (f := "MONTH") (by decide)) h.2 a

end Sql

end RowQuery
