import Mathlib.Algebra.Group.Nat.Defs
import RowQuery.Proofs.RoundTrip

namespace RowQuery

theorem Integer.uint64?_eq_some {i : Integer} {k : UInt64} : i.uint64? = some k ↔ i = .ofUInt64 k := by
  constructor
  · intro h
    obtain ⟨val, lower, upper⟩ := i
    simp only [Integer.uint64?, Option.ite_none_right_eq_some, Option.some.injEq] at h
    obtain ⟨hpos, rfl⟩ := h
    simp only [Integer.ofUInt64, Integer.mk.injEq, UInt64.toNat_ofNat']
    omega
  · rintro rfl
    exact uint64?_ofUInt64 k

theorem countOf?_isSome {s : List Char} : (∃ n, countOf? s = some n) ↔
    ∃ sign digits, s = sign ++ digits ∧ (sign = [] ∨ sign = ['+']) ∧ digits ≠ [] ∧
      (∀ c ∈ digits, c.isDigit = true) ∧ digitsValue digits < 2 ^ 64 := by
  have hsize : UInt64.size = 2 ^ 64 := rfl
  constructor
  · rintro ⟨n, h⟩
    unfold countOf? at h
    split at h <;> simp only [Option.ite_none_right_eq_some, List.all_eq_true, hsize] at h
    · rename_i digits
      exact ⟨['+'], digits, rfl, .inr rfl, h.1⟩
    · exact ⟨[], s, rfl, .inl rfl, h.1⟩
  · rintro ⟨sign, digits, rfl, hsign, hne, hdigits, hsmall⟩
    have hread : digits ≠ [] ∧ digits.all Char.isDigit = true ∧ digitsValue digits < UInt64.size :=
      ⟨hne, List.all_eq_true.mpr hdigits, hsmall⟩
    refine ⟨UInt64.ofNat (digitsValue digits), ?_⟩
    rcases hsign with rfl | rfl
    · unfold countOf?
      simp only [List.nil_append]
      split
      · have hplus := hdigits '+' List.mem_cons_self
        exact absurd hplus (by decide)
      · exact if_pos hread
    · exact if_pos hread

namespace Grammar

/-- A list of items of one shape. -/
def IsListOf (shape : Json → Prop) (a : Json) : Prop := ∃ items, a = .array items ∧ ∀ b ∈ items, shape b

/-- The member of a name, if there is one and it counts as given, has a shape. -/
def MemberIs (members : List (String × Json)) (name : String) (shape : Json → Prop) : Prop :=
  ∀ a, members.lookup name = some a → a.isTruthy = true → shape a

inductive IsPredicate : Json → Prop
  | object {members : List (String × Json)} {column operator : String}
      (hcolumn : members.lookup "column" = some (.string column))
      (hoperator : members.lookup "operator" = some (.string operator)) : IsPredicate (.object members)
  | list (column operator : String) (value : Json) (rest : List Json) :
      IsPredicate (.array (.string column :: .string operator :: value :: rest))

inductive IsJoin : Json → Prop
  | list (table tableColumn operator sourceColumn : String) (rest : List Json) :
      IsJoin (.array (.string table :: .string tableColumn :: .string operator :: .string sourceColumn :: rest))

inductive IsMembership : Json → Prop
  | pair (column : String) (values : Json) : IsMembership (.array [.string column, values])
  | ignored {items : List Json} (arity : items.length ≠ 2) : IsMembership (.array items)

def IsDirection (s : List Char) : Prop :=
  Text.lower (Text.trim s) = ['a', 's', 'c'] ∨ Text.lower (Text.trim s) = ['d', 'e', 's', 'c']

theorem isDirection_trim (s : List Char) : IsDirection (Text.trim s) ↔ IsDirection s := by
  rw [IsDirection, IsDirection, Text.trim_trim]

inductive IsOrder : Json → Prop
  | text {s : String} {column direction : List Char} (hs : s.toList = column ++ ',' :: direction)
      (hcolumn : ',' ∉ column) (hcomma : ',' ∉ direction) (hdirection : IsDirection direction) : IsOrder (.string s)
  | list (column : String) {direction : String} (hdirection : IsDirection direction.toList) (rest : List Json) :
      IsOrder (.array (.string column :: .string direction :: rest))

inductive IsRange : Json → Prop
  | text {s : String} (hcommas : s.toList.count ',' = 2) : IsRange (.string s)
  | list (column : String) (start stop : Json) (rest : List Json) :
      IsRange (.array (.string column :: start :: stop :: rest))

inductive IsFields : Json → Prop
  | text (s : String) : IsFields (.string s)
  | list {a : Json} (h : IsListOf (fun field => ∃ s, field = .string s) a) : IsFields a

/-- A whole number from zero that fits 64 bits. -/
inductive IsCount : Json → Prop
  | number (n : UInt64) : IsCount (.ofUInt64 n)

/-- A count, or a text of its decimal digits, which may have blanks around and a plus sign before them. -/
inductive IsLimit : Json → Prop
  | count {a : Json} (h : IsCount a) : IsLimit a
  | text {s : String} {sign digits : List Char} (hs : Text.trim s.toList = sign ++ digits)
      (hsign : sign = [] ∨ sign = ['+']) (hne : digits ≠ []) (hdigits : ∀ c ∈ digits, c.isDigit = true)
      (hsmall : digitsValue digits < 2 ^ 64) : IsLimit (.string s)

/-- A request for related rows, for which a limit of the given shape may be set. -/
inductive IsRelation (limit : Json → Prop) : Json → Prop
  | object {members : List (String × Json)} {name : String} (hname : members.lookup "name" = some (.string name))
      (hfields : MemberIs members "field" IsFields)
      (hconditions : MemberIs members "condition" (IsListOf IsPredicate))
      (hlimit : MemberIs members "limit" limit) (horder : MemberIs members "order" IsOrder) :
      IsRelation limit (.object members)

end Grammar

namespace Descriptor

open Grammar

variable {α : Type} {shape : Json → Prop}

theorem isOk_iff_of_error {r : Except Malformed α} {m : Malformed} {p : Prop} (hr : r = .error m) (hp : ¬p) :
    (∃ x, r = .ok x) ↔ p := by
  simp [hr, hp]

theorem readText_eq_ok {fragment : Fragment} {component : Component} {a : Json} {s : String} :
    readText fragment component a = .ok s ↔ a = .string s := by
  cases a <;> simp [readText]

theorem required_eq_ok {fragment : Fragment} {component : Component} {members : List (String × Json)}
    {name : String} {a : Json} : required fragment component members name = .ok a ↔ members.lookup name = some a := by
  unfold required
  cases members.lookup name <;> simp

theorem readList_isOk (fragment : Fragment) {read : Json → Except Malformed α}
    (h : ∀ a, (∃ x, read a = .ok x) ↔ shape a) (a : Json) :
    (∃ l, readList fragment read a = .ok l) ↔ IsListOf shape a := by
  cases a with
  | array items =>
      rw [readList, Outcome.exists_mapM]
      simp only [h, IsListOf, Json.array.injEq, exists_eq_left']
  | _ => simp [readList, IsListOf]

theorem mapM_given?_isOk {read : Json → Except Malformed α} (h : ∀ a, (∃ x, read a = .ok x) ↔ shape a)
    (members : List (String × Json)) (name : String) :
    (∃ x, (given? members name).mapM read = .ok x) ↔ MemberIs members name shape := by
  unfold given? MemberIs
  cases members.lookup name with
  | none => simp [pure, Except.pure]
  | some a =>
      rw [Option.filter_some]
      cases ha : a.isTruthy with
      | false => simp [ha, pure, Except.pure]
      | true =>
          have hmap : (∃ x, (read a).map some = .ok x) ↔ ∃ x, read a = .ok x := by
            cases read a <;> simp [Except.map]
          rw [if_pos rfl]
          refine hmap.trans ((h a).trans ?_)
          simp [ha]

theorem readPredicate_isOk (fragment : Fragment) (a : Json) :
    (∃ p, readPredicate fragment a = .ok p) ↔ IsPredicate a := by
  cases a with
  | object members =>
      simp only [readPredicate, Outcome.exists_bind, required_eq_ok, readText_eq_ok]
      constructor
      · rintro ⟨_, hcolumn, _, hoperator, column, rfl, operator, rfl, -⟩
        exact .object hcolumn hoperator
      · rintro ⟨hcolumn, hoperator⟩
        exact ⟨_, hcolumn, _, hoperator, _, rfl, _, rfl, _, rfl⟩
  | array items =>
      rcases items with _ | ⟨a, _ | ⟨b, _ | ⟨value, rest⟩⟩⟩
      case cons.cons.cons =>
        simp only [readPredicate, Outcome.exists_bind, readText_eq_ok]
        constructor
        · rintro ⟨column, rfl, operator, rfl, -⟩
          exact .list column operator value rest
        · rintro ⟨⟩
          exact ⟨_, rfl, _, rfl, _, rfl⟩
      all_goals exact isOk_iff_of_error rfl (by rintro ⟨⟩)
  | _ => exact isOk_iff_of_error rfl (by rintro ⟨⟩)

theorem readJoin_isOk (a : Json) : (∃ j, readJoin a = .ok j) ↔ IsJoin a := by
  cases a with
  | array items =>
      rcases items with _ | ⟨a, _ | ⟨b, _ | ⟨c, _ | ⟨d, rest⟩⟩⟩⟩
      case cons.cons.cons.cons =>
        simp only [readJoin, Outcome.exists_bind, readText_eq_ok]
        constructor
        · rintro ⟨table, rfl, tableColumn, rfl, operator, rfl, sourceColumn, rfl, -⟩
          exact .list table tableColumn operator sourceColumn rest
        · rintro ⟨⟩
          exact ⟨_, rfl, _, rfl, _, rfl, _, rfl, _, rfl⟩
      all_goals exact isOk_iff_of_error rfl (by rintro ⟨⟩)
  | _ => exact isOk_iff_of_error rfl (by rintro ⟨⟩)

theorem readMembership_isOk (fragment : Fragment) (a : Json) :
    (∃ m, readMembership fragment a = .ok m) ↔ IsMembership a := by
  constructor
  · rintro ⟨m, h⟩
    cases a with
    | array items =>
        by_cases arity : items.length = 2
        · obtain ⟨column, values, rfl⟩ := List.length_eq_two.mp arity
          cases column with
          | string column => exact .pair column values
          | _ => cases h
        · exact .ignored arity
    | _ => cases h
  · intro h
    cases h with
    | pair column values => exact ⟨_, readMembership_toJson fragment (.pair column values)⟩
    | ignored arity => exact ⟨_, readMembership_toJson fragment (.ignored _ arity)⟩

theorem readDirection_isOk (s : String) : (∃ d, readDirection s = .ok d) ↔ IsDirection s.toList := by
  have htoken : Text.lowered (Text.trimmed s) = String.ofList (Text.lower (Text.trim s.toList)) := by
    rw [Text.lowered, Text.trimmed, String.toList_ofList]
  have hasc : "asc" = String.ofList ['a', 's', 'c'] := rfl
  have hdesc : "desc" = String.ofList ['d', 'e', 's', 'c'] := rfl
  unfold readDirection IsDirection
  simp only [htoken, hasc, hdesc, String.ofList_inj]
  split
  · simp [*]
  · split <;> simp [*]

theorem orderOf_isOk (column direction : String) :
    (∃ o, orderOf column direction = .ok o) ↔ IsDirection direction.toList := by
  simp only [orderOf, Outcome.exists_bind, Except.ok.injEq, exists_eq', and_true, readDirection_isOk]

theorem tokens_eq (s : String) :
    tokens s = (Text.splitOn ',' s.toList).map fun piece => String.ofList (Text.trim piece) := by
  simp [tokens, Text.splitText, Text.trimmed, Function.comp_def]

theorem readOrder_text_isOk (fragment : Fragment) (s : String) :
    (∃ o, readOrder fragment (.string s) = .ok o) ↔ IsOrder (.string s) := by
  have htext : IsOrder (.string s) ↔ ∃ column direction, Text.splitOn ',' s.toList = [column, direction] ∧
      IsDirection direction := by
    simp only [Text.splitOn_eq_pair]
    constructor
    · rintro ⟨hs, hcolumn, hcomma, hdirection⟩
      exact ⟨_, _, ⟨hs, hcolumn, hcomma⟩, hdirection⟩
    · rintro ⟨column, direction, ⟨hs, hcolumn, hcomma⟩, hdirection⟩
      exact .text hs hcolumn hcomma hdirection
  rw [htext, readOrder, tokens_eq]
  rcases Text.splitOn ',' s.toList with _ | ⟨column, _ | ⟨direction, _ | ⟨third, rest⟩⟩⟩
  case cons.cons.nil =>
    -- The direction is trimmed where the text is cut, and once more where it is read.
    have hdirection := orderOf_isOk (String.ofList (Text.trim column)) (String.ofList (Text.trim direction))
    rw [String.toList_ofList, isDirection_trim] at hdirection
    simpa using hdirection
  all_goals simp

theorem readOrder_isOk (fragment : Fragment) (a : Json) : (∃ o, readOrder fragment a = .ok o) ↔ IsOrder a := by
  cases a with
  | string s => exact readOrder_text_isOk fragment s
  | array items =>
      rcases items with _ | ⟨a, _ | ⟨b, rest⟩⟩
      case cons.cons =>
        simp only [readOrder, Outcome.exists_bind, readText_eq_ok, orderOf_isOk]
        constructor
        · rintro ⟨column, rfl, direction, rfl, hdirection⟩
          exact .list column hdirection rest
        · rintro ⟨⟩
          exact ⟨_, rfl, _, rfl, ‹_›⟩
      all_goals exact isOk_iff_of_error rfl (by rintro ⟨⟩)
  | _ => exact isOk_iff_of_error rfl (by rintro ⟨⟩)

theorem readRange_text_isOk (s : String) : (∃ r, readRange (.string s) = .ok r) ↔ s.toList.count ',' = 2 := by
  have hlength := Text.length_splitOn ',' s.toList
  rw [readRange, tokens_eq]
  generalize Text.splitOn ',' s.toList = pieces at hlength ⊢
  rcases pieces with _ | ⟨column, _ | ⟨start, _ | ⟨stop, _ | ⟨fourth, rest⟩⟩⟩⟩
  case cons.cons.cons.nil => exact iff_of_true ⟨_, rfl⟩ (by simpa using hlength.symm)
  all_goals
    simp only [List.length_cons, List.length_nil] at hlength
    exact isOk_iff_of_error rfl (by omega)

theorem readRange_isOk (a : Json) : (∃ r, readRange a = .ok r) ↔ IsRange a := by
  cases a with
  | string s =>
      refine (readRange_text_isOk s).trans ⟨.text, fun h => ?_⟩
      cases h with
      | text hcommas => exact hcommas
  | array items =>
      rcases items with _ | ⟨a, _ | ⟨start, _ | ⟨stop, rest⟩⟩⟩
      case cons.cons.cons =>
        simp only [readRange, Outcome.exists_bind, readText_eq_ok]
        constructor
        · rintro ⟨column, rfl, -⟩
          exact .list column start stop rest
        · rintro ⟨⟩
          exact ⟨_, rfl, _, rfl⟩
      all_goals exact isOk_iff_of_error rfl (by rintro ⟨⟩)
  | _ => exact isOk_iff_of_error rfl (by rintro ⟨⟩)

theorem uint64?_isSome (n : Number) : (∃ k, n.uint64? = some k) ↔ IsCount (.number n) := by
  constructor
  · rintro ⟨k, h⟩
    cases n with
    | integer i =>
        obtain rfl := Integer.uint64?_eq_some.mp h
        exact .number k
    | float x => cases h
  · rintro ⟨⟩
    exact ⟨_, Integer.uint64?_ofUInt64 _⟩

theorem readLimit_isOk (fragment : Fragment) (a : Json) : (∃ n, readLimit fragment a = .ok n) ↔ IsLimit a := by
  have hlimit : (∃ n, readLimit fragment a = .ok n) ↔ ∃ n, limit? a = some n := by
    unfold readLimit
    cases limit? a <;> simp
  rw [hlimit]
  cases a with
  | number n =>
      refine (uint64?_isSome n).trans ⟨.count, fun h => ?_⟩
      cases h with
      | count h => exact h
  | string s =>
      refine countOf?_isSome.trans ?_
      constructor
      · rintro ⟨sign, digits, hs, hsign, hne, hdigits, hsmall⟩
        exact .text hs hsign hne hdigits hsmall
      · intro h
        cases h with
        | count h => cases h
        | text hs hsign hne hdigits hsmall => exact ⟨_, _, hs, hsign, hne, hdigits, hsmall⟩
  | _ =>
    refine iff_of_false (by rintro ⟨_, ⟨⟩⟩) fun h => ?_
    cases h with
    | count h => cases h

theorem readFields_isOk (a : Json) : (∃ l, readFields a = .ok l) ↔ IsFields a := by
  have hlist : (∃ l, readList .relationField (readText .relationField .field) a = .ok l) ↔
      IsListOf (fun field => ∃ s, field = .string s) a :=
    readList_isOk .relationField (fun b => exists_congr fun s => readText_eq_ok) a
  cases a with
  | string s => exact iff_of_true ⟨_, rfl⟩ (.text s)
  | _ =>
    refine Iff.trans hlist ⟨IsFields.list, fun h => ?_⟩
    cases h with
    | list h => exact h

theorem readRelation_isOk (a : Json) : (∃ r, readRelation a = .ok r) ↔ IsRelation IsLimit a := by
  cases a with
  | object members =>
      have hfields := mapM_given?_isOk readFields_isOk members "field"
      have hconditions := mapM_given?_isOk (readList_isOk .relationCondition
        (readPredicate_isOk .relationCondition)) members "condition"
      have hlimit := mapM_given?_isOk (readLimit_isOk .relationLimit) members "limit"
      have horder := mapM_given?_isOk (readOrder_isOk .relationOrder) members "order"
      simp only [readRelation, Outcome.exists_bind, required_eq_ok, readText_eq_ok, Except.ok.injEq, exists_eq',
        and_true, exists_and_right, hfields, hconditions, hlimit, horder]
      constructor
      · rintro ⟨_, hname, ⟨name, rfl⟩, hfields, hconditions, hlimit, horder⟩
        exact .object hname hfields hconditions hlimit horder
      · rintro ⟨hname, hfields, hconditions, hlimit, horder⟩
        exact ⟨_, hname, ⟨_, rfl⟩, hfields, hconditions, hlimit, horder⟩
  | _ => exact isOk_iff_of_error rfl (by rintro ⟨⟩)

end Descriptor

end RowQuery
