import RowQuery.Proofs.Mutation
import RowQuery.Proofs.Tables

namespace RowQuery

namespace Table

variable {name column : String} {amount : Int64} {test : Row → Bool}

/-- A row that the amount cannot be added to ends the loop: the rows before it are changed already, and neither
it nor any row after it is. -/
theorem incrementEach_eq_error {rows after : List Row} {e : StoreError}
    (h : incrementEach name column amount test rows = (.error e, after)) :
    ∃ before row rest, rows = before ++ row :: rest ∧
      (∀ r ∈ before, test r = true → (raised? name column amount r).isSome) ∧
      test row = true ∧ incremented name column (row.get? column) amount = .error e ∧
      after = changedWhere test (raised? name column amount) before ++ row :: rest := by
  induction rows generalizing after with
  | nil => simp [incrementEach] at h
  | cons first rest ih =>
      obtain ⟨⟨count, kept⟩, hrest⟩ : ∃ r, incrementEach name column amount test rest = r := ⟨_, rfl⟩
      cases htest : test first with
      | false =>
          simp only [incrementEach, htest, hrest, Bool.false_eq_true, if_false, Prod.mk.injEq] at h
          obtain ⟨rfl, rfl⟩ := h
          obtain ⟨before, row, last, rfl, hsums, hrow, hfails, rfl⟩ := ih hrest
          refine ⟨first :: before, row, last, rfl, ?_, hrow, hfails, ?_⟩
          · simpa [htest] using hsums
          · simp [changedWhere, htest]
      | true =>
          cases ha : incremented name column (first.get? column) amount with
          | error e' =>
              simp only [incrementEach, htest, ha, if_true, Prod.mk.injEq, Except.error.injEq] at h
              obtain ⟨rfl, rfl⟩ := h
              exact ⟨[], first, rest, rfl, by simp, htest, ha, rfl⟩
          | ok a =>
              simp only [incrementEach, htest, ha, hrest, if_true, Prod.mk.injEq] at h
              obtain ⟨hcount, rfl⟩ := h
              have hfailed : count = .error e := by
                cases count with
                | error e' => exact hcount
                | ok n => cases hcount
              obtain ⟨before, row, last, rfl, hsums, hrow, hfails, rfl⟩ := ih (hfailed ▸ hrest)
              have hraised : raised? name column amount first = some (first.insert column a) := by
                simp [raised?, ha, Except.toOption]
              refine ⟨first :: before, row, last, rfl, ?_, hrow, hfails, ?_⟩
              · simpa [hraised] using hsums
              · simp [changedWhere, htest, hraised]

theorem changedWhere_of_none {change : Row → Option Row} {rows : List Row} (h : ∀ row ∈ rows, test row = false) :
    changedWhere test change rows = rows := by
  refine (List.filterMap_congr fun row hrow => ?_).trans List.filterMap_some
  simp [h row hrow]

end Table

namespace Store

variable {s after : Store} {q : Query} {column : String} {amount : Int64} {e : StoreError}

theorem selectTuples_of_matchedKeys (h : s.matchedKeys q = .error e) : s.selectTuples q = .error e := by
  cases hselect : s.selectTuples q with
  | ok tuples =>
      obtain ⟨joined, hjoined, -⟩ := selectTuples_eq_ok.mp hselect
      obtain ⟨t, ht, -⟩ := Outcome.bind_eq_ok.mp hjoined
      simp [matchedKeys, ht, hselect, bind, Except.bind] at h
  | error e' =>
      have hkeys := (matchedKeys_of_error hselect).symm.trans h
      exact congrArg Except.error (Except.error.inj hkeys)

/-- An increment that fails because its query does leaves the store as it was. One that fails at a row leaves
behind the sums of the matched rows before that row, and nothing else has changed; so it is without effect if
no matched row stands before the one that it fails at. -/
theorem increment_stops (h : s.increment q column amount = (.error e, after)) :
    (s.selectTuples q = .error e ∧ after = s) ∨
    ∃ t keys before row rest, s.table q.table = .ok t ∧ s.matchedKeys q = .ok keys ∧
      t.rows = before ++ row :: rest ∧ t.keyIsAmong keys row = true ∧
      Table.incremented q.table column (row.get? column) amount = .error e ∧
      (∀ r ∈ before, t.keyIsAmong keys r = true → (Table.raised? q.table column amount r).isSome) ∧
      after = s.putTable q.table
        { t with rows :=
          changedWhere (t.keyIsAmong keys) (Table.raised? q.table column amount) before ++ row :: rest } ∧
      ((∀ r ∈ before, t.keyIsAmong keys r = false) → after = s) := by
  cases hkeys : s.matchedKeys q with
  | error e' =>
      rw [increment, changeMatched, hkeys] at h
      obtain ⟨he, rfl⟩ := Prod.mk.inj h
      obtain rfl := Except.error.inj he
      exact .inl ⟨selectTuples_of_matchedKeys hkeys, rfl⟩
  | ok keys =>
      obtain ⟨t, ht, -⟩ := Outcome.bind_eq_ok.mp hkeys
      simp only [increment, changeMatched, hkeys, changeTable_of_table ht, Table.increment, Prod.mk.injEq] at h
      obtain ⟨hcount, rfl⟩ := h
      obtain ⟨rows, hrows⟩ : ∃ rows,
          Table.incrementEach q.table column amount (t.keyIsAmong keys) t.rows = (.error e, rows) :=
        ⟨_, Prod.ext hcount rfl⟩
      obtain ⟨before, row, rest, hsplit, hsums, hrow, hfails, hafter⟩ := Table.incrementEach_eq_error hrows
      refine .inr ⟨t, keys, before, row, rest, ht, rfl, hsplit, hrow, hfails, hsums, ?_, fun hnone => ?_⟩
      · rw [hrows, hafter]
      · rw [hrows, hafter, Table.changedWhere_of_none hnone, ← hsplit]
        exact putTable_self ht

/-- Two items, of which the second has no number to add to. -/
def shelf : Store where
  tables := .ofList [("items", { primaryKey := "id", rows := [
    .ofList [("id", .ofInt64 1), ("stock", .ofInt64 5)],
    .ofList [("id", .ofInt64 2), ("stock", .string "x")]] })]

theorem increment_stops_shelf :
    ∃ e after, shelf.increment { table := "items" } "stock" 1 = (.error e, after) ∧
      ∃ t before row rest, shelf.table "items" = .ok t ∧ t.rows = before ++ row :: rest ∧
        Table.incremented "items" "stock" (row.get? "stock") 1 = .error e := by
  have hfails : ((shelf.increment { table := "items" } "stock" 1).1.toOption).isNone := by decide
  have hselects : ((shelf.selectTuples { table := "items" }).toOption).isSome := by decide
  obtain ⟨⟨answer, after⟩, hrun⟩ : ∃ r, shelf.increment { table := "items" } "stock" 1 = r := ⟨_, rfl⟩
  cases answer with
  | ok n => simp [hrun, Except.toOption] at hfails
  | error e =>
      rcases increment_stops hrun with ⟨hselect, -⟩ | ⟨t, -, before, row, rest, ht, -, hsplit, -, hrow, -⟩
      · simp [hselect, Except.toOption] at hselects
      · exact ⟨e, after, hrun, t, before, row, rest, ht, hsplit, hrow⟩

/-- A failed increment is not without effect: the item before the one without a number keeps its sum. -/
theorem increment_not_atomic :
    ¬∀ (s : Store) (q : Query) (column : String) (amount : Int64) (e : StoreError) (after : Store),
      s.increment q column amount = (.error e, after) → after = s := by
  intro hatomic
  have hfails : ((shelf.increment { table := "items" } "stock" 1).1.toOption).isNone := by decide
  have hchanged : (shelf.increment { table := "items" } "stock" 1).2 ≠ shelf := by decide
  obtain ⟨⟨answer, after⟩, hrun⟩ : ∃ r, shelf.increment { table := "items" } "stock" 1 = r := ⟨_, rfl⟩
  rw [hrun] at hfails hchanged
  cases answer with
  | ok n => simp [Except.toOption] at hfails
  | error e => exact hchanged (hatomic shelf { table := "items" } "stock" 1 e after hrun)

end Store

end RowQuery
