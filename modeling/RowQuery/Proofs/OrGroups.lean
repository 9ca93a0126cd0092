import RowQuery.Proofs.OutsideLiterals

namespace RowQuery

/-- Where an element stands in two lists in a row: in the first or in the second. -/
theorem append_eq_append_cons {α : Type} {l t l₁ l₂ : List α} {a : α} (h : l ++ t = l₁ ++ a :: l₂) :
    (∃ m, l = l₁ ++ a :: m ∧ l₂ = m ++ t) ∨ ∃ m, l₁ = l ++ m ∧ t = m ++ a :: l₂ := by
  rcases List.append_eq_append_iff.mp h with ⟨m, hl₁, ht⟩ | ⟨m, hl, ht⟩
  · exact .inr ⟨m, hl₁, ht⟩
  · cases m with
    | nil => exact .inr ⟨[], by rw [hl, List.append_nil, List.append_nil], ht.symm⟩
    | cons b m =>
        obtain ⟨rfl, rfl⟩ := List.cons.inj ht
        exact .inl ⟨m, hl, rfl⟩

namespace Sql

/-- The word between the conditions of a group. -/
def connective : Logic → List Char
  | .and => ['A', 'N', 'D']
  | .or => orWord

/-- Conditions in SQL, with the word for their logic between them. -/
def joined (l : Logic) (conditions : List Condition) : List Char :=
  l.sql.toList.intercalate (conditions.map fun d => d.sql.toList)

/-- The WHERE part up to a group that follows others. -/
def opening (left : List Clause) : List Char :=
  " WHERE ".toList ++ left.flatMap fun c => c.sql.toList ++ Logic.and.sql.toList

/-- The WHERE part behind a group that others follow. -/
def closing (right : List Clause) : List Char := right.flatMap fun c => Logic.and.sql.toList ++ c.sql.toList

/-- What of a group is neither in a literal nor in parentheses. -/
def conjunct (c : Clause) : List Char :=
  match c.conditions with
  | [] => "1=1".toList
  | [d] => shown d.sql.toList
  | _ => ['(', ')']

variable {s t : List Char} {l : Logic} {c : Clause} {d : Condition}

theorem level_logic (l : Logic) : Level l.sql.toList := by
  cases l
  · exact .of_flat rfl (by decide) (by decide)
  · exact .of_flat rfl (by decide) (by decide)

theorem words_logic (l : Logic) (h : quotedAfter false s = false) (t : List Char) :
    words (s ++ (l.sql.toList ++ t)) = words s ++ connective l :: words t := by
  cases l
  · exact (words_spaced h _).trans (congrArg (words s ++ ·) (words_spaced (s := ['A', 'N', 'D']) rfl t))
  · exact (words_spaced h _).trans (congrArg (words s ++ ·) (words_spaced (s := orWord) rfl t))

theorem joined_cons (l : Logic) (d : Condition) (rest : List Condition) :
    joined l (d :: rest) = d.sql.toList ++ rest.flatMap fun e => l.sql.toList ++ e.sql.toList := by
  rw [joined, List.map_cons, intercalate_cons_eq, List.flatMap_map]

theorem joined_cons_cons (l : Logic) (d e : Condition) (rest : List Condition) :
    joined l (d :: e :: rest) = d.sql.toList ++ (l.sql.toList ++ joined l (e :: rest)) := by
  rw [joined_cons, joined_cons, List.flatMap_cons, List.append_assoc]

theorem toList_clause (c : Clause) : c.sql.toList =
    match c.conditions with
    | [] => "1=1".toList
    | [d] => d.sql.toList
    | conditions => '(' :: joined c.logic conditions ++ [')'] := by
  obtain ⟨l, _ | ⟨d, _ | ⟨e, rest⟩⟩⟩ := c
  · rfl
  · rfl
  · simp [Clause.sql, joined, Function.comp_def]

theorem level_joined {conditions : List Condition} (h : ∀ d ∈ conditions, Inert d.sql.toList) :
    Level (joined l conditions) := by
  cases conditions with
  | nil => exact .nil
  | cons d rest =>
      obtain ⟨hd, hrest⟩ := List.forall_mem_cons.mp h
      rw [joined_cons]
      exact hd.toLevel.append (.flatMap fun e he => (level_logic l).append (hrest e he).toLevel)

theorem level_clause (h : ∀ d ∈ c.conditions, Inert d.sql.toList) : Level c.sql.toList := by
  rw [toList_clause]
  split
  · exact (inert_keyword (w := "1=1") (by decide)).toLevel
  · rename_i d hd
    exact (h d (hd ▸ List.mem_singleton_self d)).toLevel
  · exact (level_joined h).parenthesised

theorem level_where : Level " WHERE ".toList := .of_flat rfl (by decide) (by decide)

theorem level_opening {left : List Clause} (h : ∀ c ∈ left, ∀ d ∈ c.conditions, Inert d.sql.toList) :
    Level (opening left) :=
  level_where.append (.flatMap fun c hc => (level_clause (h c hc)).append (level_logic .and))

theorem level_closing {right : List Clause} (h : ∀ c ∈ right, ∀ d ∈ c.conditions, Inert d.sql.toList) :
    Level (closing right) :=
  .flatMap fun c hc => (level_logic .and).append (level_clause (h c hc))

theorem shown_clause (h : ∀ d ∈ c.conditions, Inert d.sql.toList) : shown c.sql.toList = conjunct c := by
  rw [toList_clause, conjunct]
  split
  · rfl
  · rfl
  · exact shown_parenthesised (level_joined h)

theorem opened_or_not {opened : List Char} (hopened : opened = [] ∨ opened = ['(']) (h : Inert s) :
    quotedAfter false (opened ++ s) = false ∧ orWord ∉ words (opened ++ s) := by
  rcases hopened with rfl | rfl
  · exact ⟨h.closed, h.silent⟩
  · exact ⟨h.closed, silent_opened h.silent⟩

theorem words_joined_cons {opened : List Char} (h : quotedAfter false (opened ++ d.sql.toList) = false)
    {rest : List Condition} (hrest : rest ≠ []) (t : List Char) :
    words (opened ++ joined l (d :: rest) ++ t) =
      words (opened ++ d.sql.toList) ++ connective l :: words (joined l rest ++ t) := by
  obtain ⟨e, rest, rfl⟩ := List.exists_cons_of_ne_nil hrest
  rw [← words_logic l h, joined_cons_cons]
  simp only [List.append_assoc]

/-- The word OR in a group is one that stands between two conditions, and its logic is that of the alternatives. -/
theorem or_of_joined {opened : List Char} (hopened : opened = [] ∨ opened = ['(']) {rest : List Condition}
    (h : ∀ e ∈ d :: rest, Inert e.sql.toList) {ws₁ ws₂ : List (List Char)}
    (hor : words (opened ++ joined l (d :: rest) ++ [')']) = ws₁ ++ orWord :: ws₂) :
    l = .or ∧ ∃ first second, d :: rest = first ++ second ∧ first ≠ [] ∧ second ≠ [] ∧
      ws₁ = words (opened ++ joined l first) ∧ ws₂ = words (joined l second ++ [')']) := by
  -- The induction is on the conditions behind the first; only the first of a group stands behind the parenthesis.
  induction rest generalizing d opened ws₁ with
  | nil =>
      obtain ⟨hclosed, hsilent⟩ := opened_or_not hopened (h d List.mem_cons_self)
      rw [joined_cons, List.flatMap_nil, List.append_nil] at hor
      refine absurd ?_ (silent_concat (c := ')') (by decide) hclosed hsilent)
      rw [hor]
      exact List.mem_append_right _ List.mem_cons_self
  | cons e rest ih =>
      obtain ⟨hd, hrest⟩ := List.forall_mem_cons.mp h
      obtain ⟨hclosed, hsilent⟩ := opened_or_not hopened hd
      rw [words_joined_cons hclosed (List.cons_ne_nil e rest)] at hor
      rcases append_eq_append_cons hor with ⟨m, hm, -⟩ | ⟨m, rfl, hm⟩
      · refine absurd ?_ hsilent
        rw [hm]
        exact List.mem_append_right _ List.mem_cons_self
      · cases m with
        | nil =>
            obtain ⟨hword, hlast⟩ := List.cons.inj hm
            have hlogic : l = .or := by
              cases l
              · exact absurd hword (by decide)
              · rfl
            refine ⟨hlogic, [d], e :: rest, rfl, List.cons_ne_nil _ _, List.cons_ne_nil _ _, ?_, hlast.symm⟩
            rw [List.append_nil, joined_cons, List.flatMap_nil, List.append_nil]
        | cons w m =>
            obtain ⟨rfl, htail⟩ := List.cons.inj hm
            obtain ⟨hlogic, first, second, hsplit, hsome, hsome', rfl, rfl⟩ := ih (.inl rfl) hrest htail
            refine ⟨hlogic, d :: first, second, congrArg (d :: ·) hsplit, List.cons_ne_nil _ _, hsome', ?_, rfl⟩
            have hwords := words_joined_cons (l := l) hclosed hsome []
            rw [List.append_nil, List.append_nil] at hwords
            exact hwords.symm

theorem or_of_clause (h : ∀ d ∈ c.conditions, Inert d.sql.toList) {ws₁ ws₂ : List (List Char)}
    (hor : words c.sql.toList = ws₁ ++ orWord :: ws₂) :
    ∃ first second, c = ⟨.or, first ++ second⟩ ∧ first ≠ [] ∧ second ≠ [] ∧
      ws₁ = words ('(' :: joined .or first) ∧ ws₂ = words (joined .or second ++ [')']) := by
  have hquiet : ¬ Inert c.sql.toList := by
    refine fun hinert => hinert.silent ?_
    rw [hor]
    exact List.mem_append_right _ List.mem_cons_self
  obtain ⟨l, conditions⟩ := c
  match conditions, h with
  | [], _ => exact absurd (inert_keyword (w := "1=1") (by decide)) hquiet
  | [d], h => exact absurd (h d List.mem_cons_self) hquiet
  | d :: e :: rest, h =>
      rw [toList_clause] at hor
      obtain ⟨rfl, first, second, hsplit, hsome, hsome', hws₁, hws₂⟩ := or_of_joined (.inr rfl) h hor
      exact ⟨first, second, congrArg (Clause.mk .or) hsplit, hsome, hsome', hws₁, hws₂⟩

/-- The word OR in a conjunction of groups is one between two conditions of one group. -/
theorem or_of_conjunction {rest : List Clause} (h : ∀ g ∈ c :: rest, ∀ d ∈ g.conditions, Inert d.sql.toList)
    {ws₁ ws₂ : List (List Char)} (hor : words (c.sql.toList ++ closing rest) = ws₁ ++ orWord :: ws₂) :
    ∃ left first second right, c :: rest = left ++ ⟨.or, first ++ second⟩ :: right ∧ first ≠ [] ∧ second ≠ [] ∧
      ws₁ = words ((left.flatMap fun c => c.sql.toList ++ Logic.and.sql.toList) ++ '(' :: joined .or first) ∧
      ws₂ = words (joined .or second ++ ')' :: closing right) := by
  induction rest generalizing c ws₁ with
  | nil =>
      rw [closing, List.flatMap_nil, List.append_nil] at hor
      obtain ⟨first, second, rfl, hsome, hsome', hws₁, hws₂⟩ := or_of_clause (h c List.mem_cons_self) hor
      exact ⟨[], first, second, [], rfl, hsome, hsome', hws₁, hws₂⟩
  | cons e rest ih =>
      obtain ⟨hc, hrest⟩ := List.forall_mem_cons.mp h
      have hclosed : quotedAfter false c.sql.toList = false := (level_clause hc).closed
      have hnext : closing (e :: rest) = Logic.and.sql.toList ++ (e.sql.toList ++ closing rest) := List.append_assoc ..
      rw [hnext, words_logic .and hclosed] at hor
      rcases append_eq_append_cons hor with ⟨m, hm, rfl⟩ | ⟨m, rfl, hm⟩
      · obtain ⟨first, second, rfl, hsome, hsome', hws₁, rfl⟩ := or_of_clause hc hm
        refine ⟨[], first, second, e :: rest, rfl, hsome, hsome', hws₁, ?_⟩
        have hsecond : Level (joined .or second) :=
          level_joined fun d hd => hc d (List.mem_append_right first hd)
        have hparen : quotedAfter false (joined .or second ++ [')']) = false := quotedAfter_append hsecond.closed [')']
        rw [← words_logic .and hparen, ← hnext, List.append_assoc]
        rfl
      · cases m with
        | nil => exact absurd (List.cons.inj hm).1 (by decide)
        | cons w m =>
            obtain ⟨rfl, htail⟩ := List.cons.inj hm
            obtain ⟨left, first, second, right, hsplit, hsome, hsome', rfl, hws₂⟩ := ih hrest htail
            refine ⟨c :: left, first, second, right, congrArg (c :: ·) hsplit, hsome, hsome', ?_, hws₂⟩
            rw [List.flatMap_cons, List.append_assoc, List.append_assoc, words_logic .and hclosed]

theorem toList_whereSql (q : Query) : q.whereSql.toList =
    match q.clauses with
    | [] => []
    | c :: rest => " WHERE ".toList ++ (c.sql.toList ++ closing rest) := by
  rw [Query.whereSql]
  split
  · rename_i hnone
    rw [hnone]
    rfl
  · rename_i hsome
    obtain ⟨c, rest, hclauses⟩ := List.exists_cons_of_ne_nil hsome
    rw [hclauses, String.toList_append, String.toList_intercalate, List.map_cons, List.map_cons, intercalate_cons_eq,
      List.flatMap_map, List.flatMap_map]
    rfl

theorem words_whereSql (s : List Char) : words (" WHERE ".toList ++ s) = [[], "WHERE".toList] ++ words s :=
  words_spaced (s := " WHERE".toList) rfl s

theorem words_opening (left : List Clause) (s : List Char) : words (opening left ++ s) =
    [[], "WHERE".toList] ++ words ((left.flatMap fun c => c.sql.toList ++ Logic.and.sql.toList) ++ s) :=
  (congrArg words (List.append_assoc ..)).trans (words_whereSql _)

theorem splitOn_or (before after : List Char) : Text.splitOn ' ' (before ++ " OR ".toList ++ after) =
    Text.splitOn ' ' before ++ orWord :: Text.splitOn ' ' after := by
  rw [List.append_assoc]
  refine (Text.splitOn_append_sep ' ' before ("OR ".toList ++ after)).trans ?_
  exact congrArg (Text.splitOn ' ' before ++ ·) (Text.splitOn_append_sep ' ' orWord after)

/-- An OR in the WHERE part lies in the parentheses of a group of alternatives. -/
theorem or_of_whereSql {rest : List Clause} (h : ∀ g ∈ c :: rest, ∀ d ∈ g.conditions, Inert d.sql.toList)
    {before after : List Char}
    (hor : outside (" WHERE ".toList ++ (c.sql.toList ++ closing rest)) = before ++ " OR ".toList ++ after) :
    depth? 0 before = some 1 ∧ ∃ left first second right, c :: rest = left ++ ⟨.or, first ++ second⟩ :: right ∧
      first ≠ [] ∧ second ≠ [] ∧ before = outside (opening left ++ '(' :: joined .or first) ∧
      after = outside (joined .or second ++ ')' :: closing right) := by
  have hwords := congrArg (Text.splitOn ' ') hor
  rw [splitOn_or] at hwords
  rcases append_eq_append_cons ((words_whereSql _).symm.trans hwords) with ⟨m, hm, -⟩ | ⟨m, hbefore, hm⟩
  · have hmem : orWord ∈ [[], "WHERE".toList] := hm ▸ List.mem_append_right _ List.mem_cons_self
    exact absurd hmem (by decide)
  · obtain ⟨left, first, second, right, hsplit, hsome, hsome', rfl, hafter⟩ := or_of_conjunction h hm
    have hopened : Text.splitOn ' ' before = words (opening left ++ '(' :: joined .or first) :=
      hbefore.trans (words_opening left _).symm
    have htext : before = outside (opening left ++ '(' :: joined .or first) := Text.splitOn_inj hopened
    refine ⟨?_, left, first, second, right, hsplit, hsome, hsome', htext, Text.splitOn_inj hafter⟩
    rw [hsplit] at h
    obtain ⟨hleft, hgroup⟩ := List.forall_mem_append.mp h
    have hfirst : Level (joined .or first) :=
      level_joined fun d hd => hgroup _ List.mem_cons_self d (List.mem_append_left second hd)
    rw [htext, outside_append (level_opening hleft).closed, depth?_append, (level_opening hleft).balanced]
    exact hfirst.balanced 1

theorem shown_closing {right : List Clause} (h : ∀ c ∈ right, ∀ d ∈ c.conditions, Inert d.sql.toList) :
    shown (closing right) = right.flatMap fun c => " AND ".toList ++ conjunct c := by
  rw [closing, shown_flatMap fun c hc => (level_logic .and).append (level_clause (h c hc))]
  apply List.flatMap_congr
  intro c hc
  rw [shown_append (level_logic .and), shown_clause (h c hc)]
  rfl

/-- However the WHERE part of a query is composed, and whatever its values are: outside of literals its parentheses are
balanced; each OR stands between two conditions of one group of alternatives and in the parentheses around that group;
and what is in no parentheses is the groups in their order, with an AND between one and the next. -/
theorem or_stays_in_its_group (q : Query) (hplain : ∀ c ∈ q.clauses, ∀ d ∈ c.conditions, d.Plain) :
    depth? 0 (outside q.whereSql.toList) = some 0 ∧
    (∀ before after, outside q.whereSql.toList = before ++ " OR ".toList ++ after →
      depth? 0 before = some 1 ∧ ∃ left first second right, q.clauses = left ++ ⟨.or, first ++ second⟩ :: right ∧
        first ≠ [] ∧ second ≠ [] ∧ before = outside (opening left ++ '(' :: joined .or first) ∧
        after = outside (joined .or second ++ ')' :: closing right)) ∧
    shown q.whereSql.toList =
      if q.clauses = [] then [] else " WHERE ".toList ++ " AND ".toList.intercalate (q.clauses.map conjunct) := by
  have hinert : ∀ c ∈ q.clauses, ∀ d ∈ c.conditions, Inert d.sql.toList :=
    fun c hc d hd => inert_condition (hplain c hc d hd)
  rw [toList_whereSql]
  cases hclauses : q.clauses with
  | nil =>
      refine ⟨rfl, fun before after hor => ?_, rfl⟩
      simp [outside, masked] at hor
  | cons c rest =>
      rw [hclauses] at hinert
      obtain ⟨hc, hrest⟩ := List.forall_mem_cons.mp hinert
      refine ⟨?_, fun before after hor => or_of_whereSql hinert hor, ?_⟩
      · exact (level_where.append ((level_clause hc).append (level_closing hrest))).balanced 0
      · rw [if_neg (List.cons_ne_nil c rest), shown_append level_where, shown_append (level_clause hc), shown_clause hc,
          shown_closing hrest, List.map_cons, intercalate_cons_eq, List.flatMap_map]
        rfl

/-- A name that would be an alternative of its own if it left its literal, beside a range of ages. -/
def guarded : Query where
  table := "users"
  clauses := [⟨.and, []⟩,
    ⟨.or, [.compare "name" "=" (.string "x') OR ('1"), .between "age" (.ofInt64 18) (.ofInt64 30)]⟩,
    .single (.isNotIn "role" [.string " OR ", .null])]

theorem or_stays_in_its_group_guarded :
    depth? 0 (outside guarded.whereSql.toList) = some 0 ∧
    shown guarded.whereSql.toList = " WHERE 1=1 AND () AND role NOT IN ()".toList ∧
    ∃ before after, outside guarded.whereSql.toList = before ++ " OR ".toList ++ after ∧ depth? 0 before = some 1 := by
  have hplain : ∀ c ∈ guarded.clauses, ∀ d ∈ c.conditions, d.Plain := by decide
  obtain ⟨hdepth, hor, hshown⟩ := or_stays_in_its_group guarded hplain
  have hconjuncts : " AND ".toList.intercalate (guarded.clauses.map conjunct) =
      "1=1 AND () AND role NOT IN ()".toList := by
    decide
  have hpart : outside guarded.whereSql.toList = " WHERE 1=1 AND (name = ''''''''''''''".toList ++ " OR ".toList ++
      "age BETWEEN 18 AND 30) AND role NOT IN ('''''', NULL)".toList := by
    rw [toList_whereSql]
    decide
  rw [if_neg (by decide), hconjuncts] at hshown
  exact ⟨hdepth, hshown, _, _, hpart, (hor _ _ hpart).1⟩

end Sql

end RowQuery
