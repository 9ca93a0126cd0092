import RowQuery.Proofs.Insertion

namespace RowQuery

/-- A call that adds rows to a table. -/
inductive Insertion
  | create (row : Row)
  | insertGetId (row : Row)
  | insert (rows : List Row)
  | seed (values : List Json)

namespace Insertion

def run (name : String) (s : Store) : Insertion → Store
  | create row => (s.create name row).2
  | insertGetId row => (s.insertGetId name row).2
  | insert rows => (s.insert name rows).2
  | seed values => (s.seed name values).2

/-- The objects before the first value that is none. -/
def objects : List Json → List Row
  | .object members :: rest => .ofList members :: objects rest
  | _ => []

/-- The rows that are offered to the table in turn. -/
def rows : Insertion → List Row
  | create row | insertGetId row => [row]
  | insert rows => rows
  | seed values => objects values

/-- What a table takes of the rows of some calls. -/
def entries (name : String) (t : Table) : List Insertion → List Table.Entry
  | [] => []
  | c :: rest => t.taken name c.rows ++ entries name (t.insertEach name c.rows).2 rest

variable {s : Store} {name : String} {t : Table}

theorem seed_eq_insertEach (name : String) (t : Table) (values : List Json) :
    (t.seed name values).2 = (t.insertEach name (objects values)).2 := by
  induction values generalizing t with
  | nil => rfl
  | cons value rest ih =>
      cases value with
      | object members =>
          unfold Table.seed objects Table.insertEach
          cases t.insert name (.ofList members) with
          | error e => rfl
          | ok r => exact ih r.2
      | _ => rfl

theorem run_eq (h : s.table name = .ok t) (c : Insertion) :
    c.run name s = s.putTable name (t.insertEach name c.rows).2 := by
  cases c with
  | create row =>
      show (s.tryTable name fun t => t.insert name row).2 = _
      simp only [rows, Table.insertEach]
      cases hinsert : t.insert name row with
      | error e => rw [Store.tryTable_of_error h hinsert, Store.putTable_self h]
      | ok r => rw [Store.tryTable_of_ok h hinsert]
  | insertGetId row =>
      simp only [run, rows, Table.insertEach]
      cases hinsert : t.insert name row with
      | error e =>
          have hrun : s.insertGetId name row = (.error e, s) := Store.tryTable_of_error h (by rw [hinsert]; rfl)
          rw [hrun, Store.putTable_self h]
      | ok r =>
          have hrun : s.insertGetId name row = (.ok ((r.1.get? r.2.primaryKey).getD .null), s.putTable name r.2) :=
            Store.tryTable_of_ok h (by rw [hinsert]; rfl)
          rw [hrun]
  | insert rows =>
      show (s.changeTable name fun t => t.insertEach name rows).2 = _
      rw [Store.changeTable_of_table h]
      rfl
  | seed values =>
      show (s.changeTable name fun t => t.seed name values).2 = _
      rw [Store.changeTable_of_table h]
      exact congrArg (s.putTable name) (seed_eq_insertEach name t values)

theorem runs_account {before : List Table.Entry} (h : s.table name = .ok t) (ht : t.Accounts before)
    (calls : List Insertion) :
    ∃ t', (calls.foldl (run name) s).table name = .ok t' ∧ t'.Accounts (before ++ entries name t calls) := by
  induction calls generalizing s t before with
  | nil => exact ⟨t, h, by simpa [entries] using ht⟩
  | cons c rest ih =>
      have hnext : (c.run name s).table name = .ok (t.insertEach name c.rows).2 := by
        rw [run_eq h, Store.table_putTable]
      obtain ⟨t', hrun, haccounts⟩ := ih hnext (ht.insertEach c.rows)
      rw [List.append_assoc] at haccounts
      exact ⟨t', hrun, haccounts⟩

end Insertion

namespace Store

open Insertion

/-- Whatever is inserted into an empty table, every row has a key in the end. Two keys are equal only where the
counter has assigned the later one, which it does without a look at the keys that are there, and then the earlier
one is no integer that a double holds exactly; so a table whose keys are all such integers has no key twice. The
rows are those that the table has taken, each behind the key it came with. -/
theorem keys_after_insertions (s : Store) {name : String} {t : Table} (ht : s.table name = .ok t)
    (hempty : t.rows = []) (calls : List Insertion) :
    ∃ t', (calls.foldl (run name) s).table name = .ok t' ∧
      t'.rows = (entries name t calls).map Prod.snd ∧
      (∀ row ∈ t'.rows, (t'.keyOf? row).isSome) ∧
      (t'.Countable → (entries name t calls).Pairwise t'.Repeats) ∧
      ((∀ row ∈ t'.rows, ∃ i, t'.keyOf? row = some (.number (.integer i)) ∧ i.val.natAbs < 2 ^ 53) →
        t'.Keyed) := by
  have hstart : t.Accounts [] := by
    refine ⟨hempty, ?_, fun _ => ?_, fun _ => .nil⟩
    · rw [hempty]
      exact List.forall_mem_nil _
    · rw [hempty]
      exact List.forall_mem_nil _
  obtain ⟨t', hrun, haccounts⟩ := runs_account ht hstart calls
  rw [List.nil_append] at haccounts
  exact ⟨t', hrun, haccounts.rows, haccounts.present, haccounts.repeats, haccounts.keyed⟩

/-- A store with one empty table. -/
def blank : Store := ({} : Store).createTable "notes" "id"

/-- A text that reads as the number one for a key, and then a row that is left to the counter. -/
def Insertion.clash : List Insertion := [.create (.ofList [("id", .string "1")]), .create .empty]

theorem keys_after_insertions_blank :
    ∃ t t', blank.table "notes" = .ok t ∧ t.rows = [] ∧
      (Insertion.clash.foldl (run "notes") blank).table "notes" = .ok t' ∧ t'.rows.length = 2 ∧
      (∀ row ∈ t'.rows, (t'.keyOf? row).isSome) ∧ (entries "notes" t Insertion.clash).Pairwise t'.Repeats := by
  have hblank : blank.table "notes" = .ok { primaryKey := "id" } := rfl
  obtain ⟨t', hrun, -, hpresent, hrepeats, -⟩ := keys_after_insertions blank hblank rfl Insertion.clash
  have hcheck : ((Insertion.clash.foldl (run "notes") blank).table "notes").toOption.all
      (fun t => decide (t.rows.length = 2 ∧ ∀ row ∈ t.rows, t.keyOf? row ≠ some (.ofInt64 .maxValue))) = true := by
    decide
  rw [hrun] at hcheck
  obtain ⟨hlength, hcount⟩ := of_decide_eq_true hcheck
  exact ⟨_, t', hblank, rfl, hrun, hlength, hpresent, hrepeats hcount⟩

/-- Insertions can give two rows equal keys. -/
theorem insertions_can_repeat_keys :
    ¬∀ (s : Store) (name : String) (t t' : Table) (calls : List Insertion), s.table name = .ok t → t.rows = [] →
      (calls.foldl (run name) s).table name = .ok t' → t'.Countable → t'.Keyed := by
  intro hkeyed
  have hcheck : ((Insertion.clash.foldl (run "notes") blank).table "notes").toOption.any
      (fun t => decide ((∀ row ∈ t.rows, t.keyOf? row ≠ some (.ofInt64 .maxValue)) ∧ ¬t.Keyed)) = true := by
    decide
  cases hrun : (Insertion.clash.foldl (run "notes") blank).table "notes" with
  | error e => simp [hrun, Except.toOption] at hcheck
  | ok t' =>
      rw [hrun] at hcheck
      obtain ⟨hcount, hrepeat⟩ := of_decide_eq_true hcheck
      exact hrepeat (hkeyed blank "notes" { primaryKey := "id" } t' Insertion.clash rfl rfl hrun hcount)

end Store

end RowQuery
