import RowQuery.Proofs.Outcome
import RowQuery.Store.Writing

namespace RowQuery

namespace Dict

variable {α : Type}

theorem insert_self {d : Dict α} {name : String} {value : α} (h : d.get? name = some value) :
    d.insert name value = d := by
  ext1 other
  rw [get?_insert]
  split
  · rename_i hname
    rw [hname, h]
  · rfl

theorem insert_insert (d : Dict α) (name : String) (a b : α) : (d.insert name a).insert name b = d.insert name b := by
  ext1 other
  simp only [get?_insert]
  split <;> rfl

end Dict

namespace Store

variable {s : Store} {name : String} {t : Table}

theorem table_eq_ok : s.table name = .ok t ↔ s.tables.get? name = some t := by
  unfold table
  cases s.tables.get? name <;> simp

@[simp]
theorem table_putTable (s : Store) (name : String) (t : Table) : (s.putTable name t).table name = .ok t := by
  rw [table_eq_ok]
  exact Dict.get?_insert_self s.tables name t

theorem table_putTable_of_ne {other : String} (h : other ≠ name) (s : Store) (t : Table) :
    (s.putTable other t).table name = s.table name := by
  rw [table, table, putTable, Dict.get?_insert_of_ne s.tables t h.symm]

theorem putTable_self (h : s.table name = .ok t) : s.putTable name t = s := by
  cases s with
  | mk tables paging =>
      have htables : tables.insert name t = tables := Dict.insert_self (table_eq_ok.mp h)
      rw [putTable, htables]

theorem putTable_putTable (s : Store) (name : String) (t u : Table) :
    (s.putTable name t).putTable name u = s.putTable name u := by
  rw [putTable, putTable, putTable, Dict.insert_insert]

theorem changeTable_of_table {α : Type} (h : s.table name = .ok t) (change : Table → Except StoreError α × Table) :
    s.changeTable name change = ((change t).1, s.putTable name (change t).2) := by
  rw [changeTable, h]

theorem table_changeTable_of_ne {α : Type} {other : String} (h : other ≠ name)
    (change : Table → Except StoreError α × Table) : (s.changeTable other change).2.table name = s.table name := by
  rw [changeTable]
  cases s.table other with
  | error e => rfl
  | ok t => exact table_putTable_of_ne h s _

theorem changeTable_eq {α : Type} {answer : Except StoreError α} {after : Store}
    {change : Table → Except StoreError α × Table} : s.changeTable name change = (answer, after) ↔
      (∃ e, s.table name = .error e ∧ answer = .error e ∧ after = s) ∨
      ∃ t t', s.table name = .ok t ∧ change t = (answer, t') ∧ after = s.putTable name t' := by
  cases htable : s.table name with
  | error e => simp [changeTable, htable, eq_comm]
  | ok t =>
      simp only [changeTable_of_table htable, reduceCtorEq, false_and, exists_false, false_or]
      constructor
      · intro h
        obtain ⟨rfl, rfl⟩ := Prod.mk.inj h
        exact ⟨t, (change t).2, rfl, rfl, rfl⟩
      · rintro ⟨u, t', hu, hchange, rfl⟩
        obtain rfl := Except.ok.inj hu
        rw [hchange]

section Matched

variable {α : Type} {q : Query} {keys : List Json} {answer : Except StoreError α} {after : Store}
  {change : Table → List Json → Except StoreError α × Table}

theorem changeMatched_of_keys (ht : s.table q.table = .ok t) (hkeys : s.matchedKeys q = .ok keys)
    (change : Table → List Json → Except StoreError α × Table) :
    s.changeMatched q change = ((change t keys).1, s.putTable q.table (change t keys).2) := by
  rw [changeMatched, hkeys]
  exact changeTable_of_table ht _

theorem changeMatched_eq : s.changeMatched q change = (answer, after) ↔
    (∃ e, s.matchedKeys q = .error e ∧ answer = .error e ∧ after = s) ∨
    ∃ t keys t', s.table q.table = .ok t ∧ s.matchedKeys q = .ok keys ∧ change t keys = (answer, t') ∧
      after = s.putTable q.table t' := by
  cases hkeys : s.matchedKeys q with
  | error e => simp [changeMatched, hkeys, eq_comm]
  | ok keys =>
      obtain ⟨t, ht, -⟩ := Outcome.bind_eq_ok.mp hkeys
      rw [changeMatched_of_keys ht hkeys]
      simp only [reduceCtorEq, false_and, exists_false, false_or]
      constructor
      · intro h
        obtain ⟨rfl, rfl⟩ := Prod.mk.inj h
        exact ⟨t, keys, (change t keys).2, ht, rfl, rfl, rfl⟩
      · rintro ⟨u, keys', t', hu, hkeys', hchange, rfl⟩
        obtain rfl := Except.ok.inj (ht.symm.trans hu)
        obtain rfl := Except.ok.inj hkeys'
        rw [hchange]

theorem table_changeMatched_of_ne (h : q.table ≠ name) (change : Table → List Json → Except StoreError α × Table) :
    (s.changeMatched q change).2.table name = s.table name := by
  rw [changeMatched]
  cases s.matchedKeys q with
  | error e => rfl
  | ok keys => exact table_changeTable_of_ne h _

end Matched

theorem tryTable_of_error {α : Type} {e : StoreError} (h : s.table name = .ok t)
    {change : Table → Except StoreError (α × Table)} (hchange : change t = .error e) :
    s.tryTable name change = (.error e, s) := by
  simp only [tryTable, changeTable_of_table h, hchange, putTable_self h]

theorem tryTable_of_ok {α : Type} {a : α} {t' : Table} (h : s.table name = .ok t)
    {change : Table → Except StoreError (α × Table)} (hchange : change t = .ok (a, t')) :
    s.tryTable name change = (.ok a, s.putTable name t') := by
  simp only [tryTable, changeTable_of_table h, hchange]

/-- A change that answers the same on the table it has made, and leaves that table alone, may be tried twice. -/
theorem tryTable_twice {α : Type} {change : Table → Except StoreError (α × Table)}
    (h : ∀ t a t', s.table name = .ok t → change t = .ok (a, t') → change t' = .ok (a, t')) :
    (s.tryTable name change).2.tryTable name change = s.tryTable name change := by
  cases htable : s.table name with
  | error e =>
      have hfail : s.tryTable name change = (.error e, s) := by simp only [tryTable, changeTable, htable]
      rw [hfail]
      exact hfail
  | ok t =>
      cases hchange : change t with
      | error e =>
          have hfail : s.tryTable name change = (.error e, s) := tryTable_of_error htable hchange
          rw [hfail]
          exact hfail
      | ok c =>
          obtain ⟨a, t'⟩ := c
          have hmade : (s.putTable name t').table name = .ok t' := table_putTable s name t'
          rw [tryTable_of_ok htable hchange, tryTable_of_ok hmade (h t a t' htable hchange), putTable_self hmade]

end Store

end RowQuery
