import RowQuery.Proofs.Selection
import RowQuery.Store.Reading

namespace RowQuery

namespace Clause

variable {t : Tuple} {logic : Logic} {c : Clause} {ds es : List Condition}

/-- What a group asks of a tuple: all of its conditions or one of them, and nothing if it is empty. -/
def Holds (c : Clause) (t : Tuple) : Prop :=
  c.conditions = [] ∨ match c.logic with
    | .and => ∀ d ∈ c.conditions, t.meets d = .ok true
    | .or => ∃ d ∈ c.conditions, t.meets d = .ok true

theorem holds_of_meetsClause (h : t.meetsClause c = .ok true) : c.Holds t := by
  obtain ⟨logic, _ | ⟨d, rest⟩⟩ := c
  · exact .inl rfl
  · cases logic with
    | and => exact .inr (Outcome.allM_eq_ok_true.mp h)
    | or => exact .inr (Outcome.exists_of_anyM h)

theorem not_holds_of_meetsClause (h : t.meetsClause c = .ok false) : ¬c.Holds t := by
  obtain ⟨logic, _ | ⟨d, rest⟩⟩ := c
  · cases Except.ok.inj h
  · rintro (hnil | hholds)
    · cases hnil
    · cases logic with
      | and =>
          obtain ⟨e, he, hfalse⟩ := Outcome.exists_of_allM h
          simpa [hfalse] using hholds e he
      | or =>
          obtain ⟨e, he, htrue⟩ := hholds
          simpa [htrue] using Outcome.forall_of_anyM h e he

theorem exists_meetsClause (h : ∀ d ∈ c.conditions, ∃ b, t.meets d = .ok b) : ∃ b, t.meetsClause c = .ok b := by
  obtain ⟨logic, _ | ⟨d, rest⟩⟩ := c
  · exact ⟨true, rfl⟩
  · cases logic with
    | and => exact Outcome.exists_allM h
    | or => exact Outcome.exists_anyM h

theorem meetsClause_iff_holds {b : Bool} (h : t.meetsClause c = .ok b) : b = true ↔ c.Holds t := by
  cases b with
  | true => exact iff_of_true rfl (holds_of_meetsClause h)
  | false => exact iff_of_false Bool.false_ne_true (not_holds_of_meetsClause h)

/-- Which conditions a group has is all that counts, not their order or number. -/
theorem holds_congr (h : ∀ d, d ∈ ds ↔ d ∈ es) : Holds ⟨logic, ds⟩ t ↔ Holds ⟨logic, es⟩ t := by
  simp only [Holds, List.eq_nil_iff_forall_not_mem, h]

theorem holds_and : Holds ⟨.and, ds⟩ t ↔ ∀ d ∈ ds, t.meets d = .ok true := by
  constructor
  · rintro (hnil | h)
    · obtain rfl : ds = [] := hnil
      simp
    · exact h
  · exact .inr

end Clause

/-- Changes of a list of groups that leave what it asks for as it is, one after the other and anywhere in the list. -/
inductive Regrouping : List Clause → List Clause → Prop
  | permute {l m : List Clause} (h : l.Perm m) : Regrouping l m
  | reorder (logic : Logic) {ds es : List Condition} (h : ds.Perm es) : Regrouping [⟨logic, ds⟩] [⟨logic, es⟩]
  | repeated (logic : Logic) {ds : List Condition} {d : Condition} (h : d ∈ ds) :
      Regrouping [⟨logic, ds⟩] [⟨logic, d :: ds⟩]
  | split (parts : List (List Condition)) : Regrouping [⟨.and, parts.flatten⟩] (parts.map (Clause.mk .and))
  | drop (logic : Logic) : Regrouping [⟨logic, []⟩] []
  | within (before after : List Clause) {l m : List Clause} (h : Regrouping l m) :
      Regrouping (before ++ l ++ after) (before ++ m ++ after)
  | undo {l m : List Clause} (h : Regrouping l m) : Regrouping m l
  | next {l m n : List Clause} (h : Regrouping l m) (h' : Regrouping m n) : Regrouping l n

/-- The induction follows a chain of changes, each of which keeps what the whole list asks of a tuple. -/
theorem Regrouping.holds_iff {l m : List Clause} (h : Regrouping l m) (t : Tuple) :
    (∀ c ∈ l, c.Holds t) ↔ ∀ c ∈ m, c.Holds t := by
  induction h with
  | permute h => simp only [h.mem_iff]
  | reorder logic h => simp only [List.forall_mem_singleton, Clause.holds_congr fun _ => h.mem_iff]
  | @repeated logic ds d h =>
      have hmem : ∀ e, e ∈ ds ↔ e ∈ d :: ds := fun e => by
        rw [List.mem_cons, iff_or_self]
        rintro rfl
        exact h
      simp only [List.forall_mem_singleton, Clause.holds_congr hmem]
  | split parts =>
      simp only [List.forall_mem_singleton, List.forall_mem_map, Clause.holds_and, List.mem_flatten]
      exact ⟨fun h part hpart d hd => h d ⟨part, hpart, hd⟩, fun h d ⟨part, hpart, hd⟩ => h part hpart d hd⟩
  | drop logic => simp [Clause.Holds]
  | within before after _ ih => simp only [List.forall_mem_append, ih]
  | undo _ ih => exact ih.symm
  | next _ _ ih ih' => exact ih.trans ih'

namespace Tuple

variable {t : Tuple} {l m : List Clause} {a b : Bool}

theorem holds_of_meetsAll (h : t.meetsAll l = .ok true) : ∀ c ∈ l, c.Holds t :=
  fun c hc => Clause.holds_of_meetsClause (Outcome.allM_eq_ok_true.mp h c hc)

theorem meetsAll_iff_holds (h : t.meetsAll l = .ok b) : b = true ↔ ∀ c ∈ l, c.Holds t := by
  cases b with
  | true => exact iff_of_true rfl (holds_of_meetsAll h)
  | false =>
      obtain ⟨c, hc, hfalse⟩ := Outcome.exists_of_allM h
      exact iff_of_false Bool.false_ne_true fun hholds => Clause.not_holds_of_meetsClause hfalse (hholds c hc)

/-- Two answers to the same groups, however grouped, are the same, even if one of them is cut short before a
condition that the other stumbles over. -/
theorem meetsAll_regrouped (h : Regrouping l m) (ha : t.meetsAll l = .ok a) (hb : t.meetsAll m = .ok b) : a = b := by
  rw [Bool.eq_iff_iff, meetsAll_iff_holds ha, meetsAll_iff_holds hb]
  exact h.holds_iff t

end Tuple

namespace Store

variable {s : Store} {q : Query} {clauses : List Clause}

theorem selectTuples_regrouped (h : Regrouping q.clauses clauses) {tuples tuples' : List Tuple}
    (ht : s.selectTuples q = .ok tuples) (ht' : s.selectTuples { q with clauses } = .ok tuples') :
    tuples = tuples' := by
  obtain ⟨joined, hjoined, htests, rfl⟩ := selectTuples_eq_ok.mp ht
  obtain ⟨joined', hjoined', htests', rfl⟩ := selectTuples_eq_ok.mp ht'
  obtain rfl := Except.ok.inj (hjoined.symm.trans hjoined')
  have hpasses : ∀ t ∈ joined, passes (·.meetsAll q.clauses) t = passes (·.meetsAll clauses) t := by
    intro t hmem
    obtain ⟨a, ha⟩ := htests t hmem
    obtain ⟨b, hb⟩ := htests' t hmem
    rw [passes, passes, ha, hb]
    exact Tuple.meetsAll_regrouped h ha hb
  rw [List.filter_congr hpasses]

/-- Where every condition has an answer a tuple passes if every group holds, and two ways to write the same groups
select the same rows of any store wherever both have an answer. -/
theorem groups_conjoin_in_any_order :
    (∀ (t : Tuple) (clauses : List Clause), (∀ c ∈ clauses, ∀ d ∈ c.conditions, ∃ b, t.meets d = .ok b) →
      (∀ c ∈ clauses, ∃ b, t.meetsClause c = .ok b ∧ (b = true ↔ c.Holds t)) ∧
      ∃ b, t.meetsAll clauses = .ok b ∧ (b = true ↔ ∀ c ∈ clauses, c.Holds t)) ∧
    ∀ (s : Store) (q : Query) (clauses : List Clause) (rows rows' : List Row), Regrouping q.clauses clauses →
      s.get q = .ok rows → s.get { q with clauses } = .ok rows' → rows = rows' := by
  constructor
  · intro t clauses hanswers
    have hgroups : ∀ c ∈ clauses, ∃ b, t.meetsClause c = .ok b :=
      fun c hc => Clause.exists_meetsClause (hanswers c hc)
    refine ⟨fun c hc => ?_, ?_⟩
    · obtain ⟨b, hb⟩ := hgroups c hc
      exact ⟨b, hb, Clause.meetsClause_iff_holds hb⟩
    · obtain ⟨b, hb⟩ := Outcome.exists_allM hgroups
      exact ⟨b, hb, Tuple.meetsAll_iff_holds hb⟩
  · intro s q clauses rows rows' hregrouping hrows hrows'
    obtain ⟨tuples, htuples, hshown⟩ := Outcome.bind_eq_ok.mp hrows
    obtain ⟨tuples', htuples', hshown'⟩ := Outcome.bind_eq_ok.mp hrows'
    obtain rfl := selectTuples_regrouped hregrouping htuples htuples'
    exact Except.ok.inj (hshown.symm.trans hshown')

/-- Who placed a later order and is Ann or Cyd, with a group that asks nothing. -/
def laterByName : List Clause :=
  [⟨.and, [.compare "name" "!=" (.string "bob"), .compare "orders.id" ">" (.ofInt64 1)]⟩, ⟨.or, []⟩,
    ⟨.or, [.compare "name" "=" (.string "cyd"), .compare "name" "=" (.string "ann")]⟩]

def laterByNameRegrouped : List Clause :=
  [⟨.or, [.compare "name" "=" (.string "ann"), .compare "name" "=" (.string "ann"),
      .compare "name" "=" (.string "cyd")]⟩,
    ⟨.and, [.compare "name" "!=" (.string "bob")]⟩, ⟨.and, [.compare "orders.id" ">" (.ofInt64 1)]⟩]

theorem groups_conjoin_in_any_order_purchases :
    Regrouping laterByName laterByNameRegrouped ∧
    (∃ b, (Tuple.ofRow "people" (.ofList [("name", .string "ann")])).meetsAll laterByName = .ok b ∧
      (b = true ↔ ∀ c ∈ laterByName, c.Holds (.ofRow "people" (.ofList [("name", .string "ann")])))) ∧
    ∃ rows, shop.get { Query.purchases with clauses := laterByName } = .ok rows ∧ rows.length = 1 ∧
      shop.get { Query.purchases with clauses := laterByNameRegrouped } = .ok rows := by
  have hsplit := (Regrouping.split [[.compare "name" "!=" (.string "bob")],
    [.compare "orders.id" ">" (.ofInt64 1)]]).within [] laterByName.tail
  have hdrop := (Regrouping.drop .or).within laterByNameRegrouped.tail (laterByName.drop 2)
  have hreorder := (Regrouping.reorder .or (.swap (.compare "name" "=" (.string "ann"))
    (.compare "name" "=" (.string "cyd")) [])).within laterByNameRegrouped.tail []
  have hmem : Condition.compare "name" "=" (.string "ann") ∈
      [.compare "name" "=" (.string "ann"), .compare "name" "=" (.string "cyd")] := List.mem_cons_self
  have hrepeated := (Regrouping.repeated .or hmem).within laterByNameRegrouped.tail []
  have hpermute : Regrouping (laterByNameRegrouped.tail ++ [laterByNameRegrouped.head (by decide)])
      laterByNameRegrouped := .permute List.perm_append_comm
  have hregrouping : Regrouping laterByName laterByNameRegrouped :=
    hsplit.next (hdrop.next (hreorder.next (hrepeated.next hpermute)))
  have hanswers : ∀ c ∈ laterByName, ∀ d ∈ c.conditions,
      ((Tuple.ofRow "people" (.ofList [("name", .string "ann")])).meets d).toOption.isSome = true := by decide
  have hbefore : (shop.get { Query.purchases with clauses := laterByName }).toOption.any
      (fun rows => rows.length = 1) = true := by decide
  have hafter : (shop.get { Query.purchases with clauses := laterByNameRegrouped }).toOption.isSome = true := by
    decide
  obtain ⟨rows, hrows, hone⟩ := Outcome.toOption_any.mp hbefore
  obtain ⟨rows', hrows'⟩ := Outcome.toOption_isSome.mp hafter
  obtain ⟨htuples, hstores⟩ := groups_conjoin_in_any_order
  refine ⟨hregrouping, (htuples _ laterByName fun c hc d hd => Outcome.toOption_isSome.mp (hanswers c hc d hd)).2,
    rows, hrows, of_decide_eq_true hone, ?_⟩
  obtain rfl := hstores shop { Query.purchases with clauses := laterByName } laterByNameRegrouped rows rows'
    hregrouping hrows hrows'
  exact hrows'

end Store

end RowQuery
