import Mathlib.Tactic.SplitIfs
import RowQuery.Json.Reader
import RowQuery.Query.Sql

namespace RowQuery

theorem intercalate_cons_eq {α : Type} (separator s : List α) (pieces : List (List α)) :
    separator.intercalate (s :: pieces) = s ++ pieces.flatMap (separator ++ ·) := by
  induction pieces generalizing s with
  | nil => simp
  | cons piece pieces ih => rw [List.intercalate_cons_cons, ih, List.flatMap_cons, List.append_assoc, List.append_assoc]

section Digits

/-- A text in which every character may stand in a number. -/
def IsNumberText (s : List Char) : Prop := ∀ c ∈ s, Json.isNumberChar c = true

theorem IsNumberText.append {s t : List Char} (hs : IsNumberText s) (ht : IsNumberText t) : IsNumberText (s ++ t) :=
  List.forall_mem_append.mpr ⟨hs, ht⟩

theorem IsNumberText.cons {c : Char} {s : List Char} (hc : Json.isNumberChar c = true) (hs : IsNumberText s) :
    IsNumberText (c :: s) :=
  List.forall_mem_cons.mpr ⟨hc, hs⟩

theorem IsNumberText.nil : IsNumberText [] := List.forall_mem_nil _

theorem isNumberText_digitChars (n : Nat) : IsNumberText (digitChars n) := by
  intro c hc
  have hdigit : c.isDigit = true := Nat.isDigit_of_mem_toDigits (by decide) (by decide) hc
  rw [Json.isNumberChar, hdigit]
  rfl

namespace Decimal

theorem isNumberText_intChars (i : Int) : IsNumberText (intChars i) := by
  rw [intChars]
  split
  · exact .cons rfl (isNumberText_digitChars _)
  · exact isNumberText_digitChars _

theorem isNumberText_significant (d : Decimal) : IsNumberText d.significant := by
  intro c hc
  have hkept := List.mem_reverse.mp hc
  exact isNumberText_digitChars d.digits c (List.mem_reverse.mp ((List.dropWhile_suffix _).mem hkept))

variable {digits ending : List Char}

theorem isNumberText_positional (hdigits : IsNumberText digits) (hending : IsNumberText ending) (point : Int) :
    IsNumberText (positional digits point ending) := by
  have hzeros : ∀ n, IsNumberText (List.replicate n '0') := by
    intro n c hc
    obtain rfl := List.eq_of_mem_replicate hc
    rfl
  rw [positional]
  split_ifs
  · exact .cons rfl (.cons rfl ((hzeros _).append hdigits))
  · exact (hdigits.append (hzeros _)).append hending
  · exact .append (fun c hc => hdigits c (List.mem_of_mem_take hc))
      (.cons rfl fun c hc => hdigits c (List.mem_of_mem_drop hc))

theorem isNumberText_scientific (hdigits : IsNumberText digits) (point : Int) :
    IsNumberText (scientific digits point) := by
  unfold scientific
  refine .append ?_ (.cons rfl ?_)
  · match digits with
    | [] => exact .nil
    | [_] => exact hdigits
    | d :: e :: rest =>
        obtain ⟨hd, hrest⟩ := List.forall_mem_cons.mp hdigits
        exact .cons hd (.cons rfl hrest)
  · split
    · exact isNumberText_intChars _
    · exact .cons rfl (isNumberText_intChars _)

theorem positional_ne_nil (hending : ending ≠ []) (point : Int) : positional digits point ending ≠ [] := by
  rw [positional]
  split_ifs <;> simp [hending]

theorem scientific_ne_nil (point : Int) : scientific digits point ≠ [] := by
  simp [scientific]

end Decimal

theorem FloatLayout.isNumberText_chars {layout : FloatLayout} (hending : IsNumberText layout.ending)
    (x : FiniteDouble) : IsNumberText (layout.chars x) := by
  have hsign : IsNumberText (if x.negative then ['-'] else []) := by
    split
    · exact .cons rfl .nil
    · exact .nil
  rw [FloatLayout.chars]
  generalize (if x.negative then ['-'] else []) = sign at hsign
  split_ifs
  · exact hsign.append (.cons rfl hending)
  · exact hsign.append (Decimal.isNumberText_positional (Decimal.isNumberText_significant _) hending _)
  · exact hsign.append (Decimal.isNumberText_scientific (Decimal.isNumberText_significant _) _)

theorem FloatLayout.chars_ne_nil {layout : FloatLayout} (hending : layout.ending ≠ []) (x : FiniteDouble) :
    layout.chars x ≠ [] := by
  rw [FloatLayout.chars]
  split_ifs <;> simp [Decimal.positional_ne_nil hending, Decimal.scientific_ne_nil]

namespace Number

theorem isNumberText_chars (n : Number) : IsNumberText n.chars := by
  cases n with
  | integer i => exact Decimal.isNumberText_intChars i.val
  | float x => exact FloatLayout.isNumberText_chars (.cons rfl (.cons rfl .nil)) x

theorem chars_ne_nil (n : Number) : n.chars ≠ [] := by
  cases n with
  | integer i =>
      rw [chars, Decimal.intChars]
      split
      · exact List.cons_ne_nil _ _
      · exact Nat.toDigits_ne_nil
  | float x => exact FloatLayout.chars_ne_nil (List.cons_ne_nil _ _) x

end Number

end Digits

namespace Sql

/-- The characters between a comma or a parenthesis and the next are a word. -/
def endsWord (c : Char) : Bool := c = ',' || c = '(' || c = ')'

inductive Token
  | literal (content : List Char)
  | word (chars : List Char)
deriving DecidableEq

/-- What the rest of a literal stands for, and the text behind it. An apostrophe that another one follows is one
apostrophe of the content; any other ends the literal. -/
def readQuoted? : List Char → Option (List Char × List Char)
  | [] => none
  | '\x27' :: '\x27' :: rest => (readQuoted? rest).map fun (content, rest) => (apostrophe :: content, rest)
  | '\x27' :: rest => some ([], rest)
  | c :: rest => (readQuoted? rest).map fun (content, rest) => (c :: content, rest)

def readLiteral? : List Char → Option (List Char × List Char)
  | '\x27' :: rest => readQuoted? rest
  | _ => none

def readWord? (s : List Char) : Option (List Char × List Char) :=
  let word := s.takeWhile (!endsWord ·)
  if word = [] then none else some (word, s.dropWhile (!endsWord ·))

def readToken? (s : List Char) : Option (Token × List Char) :=
  if s.head? = some apostrophe then (readLiteral? s).map fun (content, rest) => (.literal content, rest)
  else (readWord? s).map fun (word, rest) => (.word word, rest)

theorem map_fst_eq_some {α β γ : Type} {f : α → γ} {x : Option (α × β)} {c : γ} {b : β}
    (h : (x.map fun p => (f p.1, p.2)) = some (c, b)) : ∃ a, x = some (a, b) ∧ f a = c := by
  obtain ⟨⟨a, b'⟩, hx, hpair⟩ := Option.map_eq_some_iff.mp h
  obtain ⟨hc, rfl⟩ := Prod.mk.inj hpair
  exact ⟨a, hx, hc⟩

theorem readQuoted?_length {s content rest : List Char} (h : readQuoted? s = some (content, rest)) :
    rest.length < s.length := by
  fun_induction readQuoted? s generalizing content with
  | case1 => cases h
  | case2 s ih =>
      obtain ⟨content', hread, -⟩ := map_fst_eq_some h
      exact Nat.lt_succ_of_lt (Nat.lt_succ_of_lt (ih hread))
  | case3 s =>
      obtain ⟨-, rfl⟩ := Prod.mk.inj (Option.some.inj h)
      exact Nat.lt_succ_self _
  | case4 c s _ _ ih =>
      obtain ⟨content', hread, -⟩ := map_fst_eq_some h
      exact Nat.lt_succ_of_lt (ih hread)

theorem readToken?_length {s rest : List Char} {token : Token} (h : readToken? s = some (token, rest)) :
    rest.length < s.length := by
  rw [readToken?] at h
  split at h
  · obtain ⟨content, hread, -⟩ := map_fst_eq_some h
    unfold readLiteral? at hread
    split at hread
    · exact Nat.lt_succ_of_lt (readQuoted?_length hread)
    · cases hread
  · obtain ⟨word, hread, -⟩ := map_fst_eq_some h
    rw [readWord?] at hread
    split at hread
    · cases hread
    · rename_i hword
      obtain ⟨-, rfl⟩ := Prod.mk.inj (Option.some.inj hread)
      have hwhole := congrArg List.length (List.takeWhile_append_dropWhile (p := (!endsWord ·)) (l := s))
      have hpos := List.length_pos_iff.mpr hword
      rw [List.length_append] at hwhole
      omega

/-- Values up to the parenthesis that closes their list, with a comma and blanks between one and the next. -/
def readItems? (s : List Char) : Option (List Token × List Char) :=
  match _ : readToken? s with
  | some (token, ')' :: rest) => some ([token], rest)
  | some (token, ',' :: rest) =>
    (readItems? (rest.dropWhile (· = ' '))).map fun (tokens, rest) => (token :: tokens, rest)
  | _ => none
termination_by s.length
decreasing_by
  rename_i hread
  have hshorter := readToken?_length hread
  have hblanks := (List.dropWhile_suffix (· = ' ') (l := rest)).length_le
  simp only [List.length_cons] at hshorter
  omega

theorem readItems?_last {s rest : List Char} {token : Token} (h : readToken? s = some (token, ')' :: rest)) :
    readItems? s = some ([token], rest) := by
  rw [readItems?]
  split <;> simp_all

theorem readItems?_next {s rest : List Char} {token : Token} (h : readToken? s = some (token, ',' :: rest)) :
    readItems? s = (readItems? (rest.dropWhile (· = ' '))).map fun (tokens, rest) => (token :: tokens, rest) := by
  rw [readItems?]
  split <;> simp_all

def readList? : List Char → Option (List Token × List Char)
  | '(' :: rest => readItems? rest
  | _ => none

/-- The token that a value is written as. -/
def Token.ofValue : Json → Token
  | .null => .word ['N', 'U', 'L', 'L']
  | .string s => .literal s.toList
  | .array items => .literal (Json.array items).chars
  | .object members => .literal (Json.object members).chars
  | a => .word a.chars

/-- A text as it stands between the apostrophes of a literal. -/
def doubled (s : List Char) : List Char := s.flatMap fun c => if c = apostrophe then [apostrophe, apostrophe] else [c]

theorem literal_append (s t : List Char) : literal s ++ t = apostrophe :: (doubled s ++ apostrophe :: t) := by
  rw [literal, List.cons_append, List.cons_append, List.append_assoc]
  rfl

theorem readQuoted?_doubled (s : List Char) {t : List Char} (ht : t.head? ≠ some apostrophe) :
    readQuoted? (doubled s ++ apostrophe :: t) = some (s, t) := by
  induction s with
  | nil =>
      cases t with
      | nil => rfl
      | cons c t =>
          have hc : c ≠ '\x27' := fun h => ht (congrArg some h)
          show readQuoted? ('\x27' :: c :: t) = some ([], c :: t)
          rw [readQuoted?]
          rintro rest ⟨⟩
          exact hc rfl
  | cons c s ih =>
      rw [doubled, List.flatMap_cons, List.append_assoc]
      by_cases hc : c = apostrophe
      · subst hc
        show (readQuoted? (doubled s ++ apostrophe :: t)).map _ = _
        rw [ih]
        rfl
      · rw [if_neg hc]
        show readQuoted? (c :: (doubled s ++ apostrophe :: t)) = _
        rw [readQuoted?, ih]
        · rfl
        · rintro rest rfl
          exact fun _ => hc rfl
        · exact hc

theorem readLiteral?_literal (s : List Char) {t : List Char} (ht : t.head? ≠ some apostrophe) :
    readLiteral? (literal s ++ t) = some (s, t) := by
  rw [literal_append]
  exact readQuoted?_doubled s ht

theorem readToken?_literal (s : List Char) {t : List Char} (ht : t.head? ≠ some apostrophe) :
    readToken? (literal s ++ t) = some (.literal s, t) := by
  have hhead : (literal s ++ t).head? = some apostrophe := rfl
  rw [readToken?, if_pos hhead, readLiteral?_literal s ht]
  rfl

theorem readToken?_word {word : List Char} (hword : word ≠ [])
    (hchars : ∀ c ∈ word, endsWord c = false ∧ c ≠ apostrophe)
    {t : List Char} (ht : ∀ c ∈ t.head?, endsWord c = true) : readToken? (word ++ t) = some (.word word, t) := by
  have hkept : ∀ c ∈ word, (!endsWord c) = true := fun c hc => by rw [(hchars c hc).1]; rfl
  have htake : (word ++ t).takeWhile (!endsWord ·) = word := by
    rw [List.takeWhile_append_of_pos hkept]
    cases t with
    | nil => simp
    | cons c t => simp [ht c rfl]
  have hdrop : (word ++ t).dropWhile (!endsWord ·) = t := by
    rw [List.dropWhile_append_of_pos hkept]
    cases t with
    | nil => rfl
    | cons c t => simp [ht c rfl]
  have hhead : (word ++ t).head? ≠ some apostrophe := by
    obtain ⟨c, rest, rfl⟩ := List.exists_cons_of_ne_nil hword
    exact fun h => (hchars c List.mem_cons_self).2 (Option.some.inj h)
  rw [readToken?, if_neg hhead, readWord?, htake, if_neg hword, hdrop]
  rfl

/-- A character of a number or of one of the words for nothing, yes and no. -/
def isBareChar (c : Char) : Bool :=
  Json.isNumberChar c || ['N', 'U', 'L', 't', 'r', 'u', 'e', 'f', 'a', 'l', 's'].contains c

theorem ne_of_isBareChar {c d : Char} (hc : isBareChar c = true) (hd : isBareChar d = false) : c ≠ d := by
  rintro rfl
  exact Bool.false_ne_true (hd.symm.trans hc)

theorem value_eq_literal_or_bare (a : Json) : (∃ s, Token.ofValue a = .literal s ∧ value a = literal s) ∨
    Token.ofValue a = .word (value a) ∧ value a ≠ [] ∧ ∀ c ∈ value a, isBareChar c = true := by
  cases a with
  | string s => exact .inl ⟨_, rfl, rfl⟩
  | array items => exact .inl ⟨_, rfl, rfl⟩
  | object members => exact .inl ⟨_, rfl, rfl⟩
  | null => exact .inr ⟨rfl, List.cons_ne_nil _ _, List.all_eq_true.mp rfl⟩
  | bool b => cases b <;> exact .inr ⟨rfl, List.cons_ne_nil _ _, List.all_eq_true.mp rfl⟩
  | number n =>
      refine .inr ⟨rfl, n.chars_ne_nil, fun c hc => ?_⟩
      rw [isBareChar, n.isNumberText_chars c hc, Bool.true_or]

theorem readToken?_value (a : Json) {t : List Char} (ht : ∀ c ∈ t.head?, endsWord c = true) :
    readToken? (value a ++ t) = some (.ofValue a, t) := by
  rcases value_eq_literal_or_bare a with ⟨s, htoken, hvalue⟩ | ⟨htoken, hsome, hbare⟩
  · rw [htoken, hvalue]
    exact readToken?_literal s fun h => absurd (ht _ h) (by decide)
  · rw [htoken]
    apply readToken?_word hsome _ ht
    intro c hc
    refine ⟨?_, ne_of_isBareChar (hbare c hc) rfl⟩
    simp [endsWord, ne_of_isBareChar (hbare c hc) (rfl : isBareChar ',' = false),
      ne_of_isBareChar (hbare c hc) (rfl : isBareChar '(' = false),
      ne_of_isBareChar (hbare c hc) (rfl : isBareChar ')' = false)]

theorem value_eq_cons (a : Json) : ∃ c rest, value a = c :: rest ∧ c ≠ ' ' := by
  rcases value_eq_literal_or_bare a with ⟨s, -, hvalue⟩ | ⟨-, hsome, hbare⟩
  · exact ⟨apostrophe, _, hvalue, by decide⟩
  · obtain ⟨c, rest, hvalue⟩ := List.exists_cons_of_ne_nil hsome
    exact ⟨c, rest, hvalue, ne_of_isBareChar (hbare c (hvalue ▸ List.mem_cons_self)) rfl⟩

theorem toList_valueText (a : Json) : (valueText a).toList = value a := String.toList_ofList

theorem toList_valueList_cons (a : Json) (values : List Json) :
    (valueList (a :: values)).toList = value a ++ values.flatMap fun b => ',' :: ' ' :: value b := by
  rw [valueList, String.toList_intercalate, List.map_cons, List.map_cons, intercalate_cons_eq, toList_valueText,
    List.flatMap_map, List.flatMap_map]
  simp only [toList_valueText]
  rfl

theorem readItems?_valueList (a : Json) (values : List Json) (t : List Char) :
    readItems? ((valueList (a :: values)).toList ++ ')' :: t) = some ((a :: values).map Token.ofValue, t) := by
  rw [toList_valueList_cons]
  induction values generalizing a with
  | nil =>
      rw [List.flatMap_nil, List.append_nil]
      apply readItems?_last
      apply readToken?_value
      rintro c ⟨⟩
      rfl
  | cons b values ih =>
      -- A value does not begin with a blank, so skipping blanks stops in front of it.
      obtain ⟨c, rest, hvalue, hblank⟩ := value_eq_cons b
      have hskip : ∀ s, (' ' :: (value b ++ s)).dropWhile (· = ' ') = value b ++ s := by
        intro s
        rw [hvalue]
        simp [hblank]
      have hcomma : ∀ s, ∀ c ∈ (',' :: s).head?, endsWord c = true := by
        rintro s c ⟨⟩
        rfl
      have hnext := ih b
      simp only [List.flatMap_cons, List.append_assoc, List.cons_append] at hnext ⊢
      rw [readItems?_next (readToken?_value a (hcomma _)), hskip, hnext]
      rfl

/-- No value ends its literal, whatever it is. What stands in SQL for a text, an array or an object is read back as a
literal of the text itself or of the JSON text of the value, and the reading stops behind it. So a list of values is
read back as the values in their order, each as a literal or as a bare word, up to the parenthesis that closes it. -/
theorem values_stay_in_their_literals :
    (∀ a content, Token.ofValue a = .literal content → ∀ t : List Char, t.head? ≠ some apostrophe →
      readLiteral? (value a ++ t) = some (content, t)) ∧
    ∀ field values, values ≠ [] → ∃ list : List Char,
      (Condition.isIn field values).sql.toList = field.toList ++ " IN ".toList ++ list ∧
      (Condition.isNotIn field values).sql.toList = field.toList ++ " NOT IN ".toList ++ list ∧
      ∀ after, readList? (list ++ after) = some (values.map Token.ofValue, after) := by
  refine ⟨?_, ?_⟩
  · intro a content hcontent t ht
    rcases value_eq_literal_or_bare a with ⟨s, htoken, hvalue⟩ | ⟨htoken, -⟩
    · obtain rfl : s = content := Token.literal.inj (htoken.symm.trans hcontent)
      rw [hvalue]
      exact readLiteral?_literal s ht
    · cases htoken.symm.trans hcontent
  · intro field values hsome
    refine ⟨'(' :: (valueList values).toList ++ [')'], ?_, ?_, fun after => ?_⟩
    · rw [Condition.sql, if_neg hsome]
      simp
    · rw [Condition.sql, if_neg hsome]
      simp
    · obtain ⟨a, rest, rfl⟩ := List.exists_cons_of_ne_nil hsome
      rw [List.append_assoc]
      exact readItems?_valueList a rest after

theorem values_stay_in_their_literals_hostile :
    let hostile := "'') OR ('' = '"
    let values := [Json.string hostile, .null, .array [.string "a, b", .string ")'"], .bool true, .ofInt64 (-3)]
    readLiteral? (value (.string hostile) ++ ", 2".toList) = some (hostile.toList, ", 2".toList) ∧
    ∃ list : List Char, (Condition.isIn "name" values).sql.toList = "name IN ".toList ++ list ∧
      readList? (list ++ " AND 1=1".toList) = some ([.literal hostile.toList, .word "NULL".toList,
        .literal "[\"a, b\",\")'\"]".toList, .word "true".toList, .word "-3".toList], " AND 1=1".toList) := by
  intro hostile values
  obtain ⟨hliteral, hlist⟩ := values_stay_in_their_literals
  obtain ⟨list, hin, -, hread⟩ := hlist "name" values (List.cons_ne_nil _ _)
  have htokens : values.map Token.ofValue = [.literal hostile.toList, .word "NULL".toList,
      .literal "[\"a, b\",\")'\"]".toList, .word "true".toList, .word "-3".toList] := by
    decide
  refine ⟨hliteral _ _ rfl _ (by decide), list, hin, ?_⟩
  rw [hread, htokens]

end Sql

end RowQuery
