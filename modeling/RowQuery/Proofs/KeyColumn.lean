import RowQuery.Proofs.Columns
import RowQuery.Proofs.Keys

namespace RowQuery.Table

variable {t t' : Table} {name column : String} {amount : Int64} {data row : Row} {keys : List Json}

/-- The keys of the rows, with a gap where one is missing or null. -/
def keyColumn (t : Table) : List (Option Json) := t.rows.map t.keyOf?

theorem Keyed.of_keyColumn (h : t.Keyed) (hcolumn : t'.keyColumn = t.keyColumn) : t'.Keyed := by
  have hkeys : ∀ u : Table, u.rows.filterMap u.keyOf? = u.keyColumn.filterMap id := by
    intro u
    rw [keyColumn, List.filterMap_map]
    rfl
  refine ⟨fun row hrow => ?_, ?_⟩
  · have hmem : t'.keyOf? row ∈ t.keyColumn := hcolumn ▸ List.mem_map_of_mem hrow
    obtain ⟨other, hother, hkey⟩ := List.mem_map.mp hmem
    rw [← hkey]
    exact h.present other hother
  · rw [hkeys, hcolumn, ← hkeys]
    exact h.distinct

theorem keyOf?_merge (h : data.get? t.primaryKey = none) (row : Row) : t.keyOf? (row.merge data) = t.keyOf? row := by
  rw [keyOf?, Dict.get?_merge, h, Option.none_or, keyOf?]

theorem keyOf?_insert (h : column ≠ t.primaryKey) (row : Row) (a : Json) :
    t.keyOf? (row.insert column a) = t.keyOf? row := by
  rw [keyOf?, Dict.get?_insert_of_ne row a h.symm, keyOf?]

theorem keyIsAmong_insert (h : column ≠ t.primaryKey) (keys : List Json) (row : Row) (a : Json) :
    t.keyIsAmong keys (row.insert column a) = t.keyIsAmong keys row := by
  rw [keyIsAmong, keyIsAmong, Dict.get?_insert_of_ne row a h.symm]

theorem keyColumn_update (h : data.get? t.primaryKey = none) (keys : List Json) :
    (t.update keys data).2.keyColumn = t.keyColumn := by
  refine (List.map_map ..).trans (List.map_congr_left fun row _ => ?_)
  show t.keyOf? (if t.keyIsAmong keys row then row.merge data else row) = t.keyOf? row
  split
  · exact keyOf?_merge h row
  · rfl

theorem keyColumn_increment (h : column ≠ t.primaryKey) (name : String) (keys : List Json) (amount : Int64) :
    (t.increment name keys column amount).2.keyColumn = t.keyColumn := by
  have heach : ∀ rows : List Row,
      (incrementEach name column amount (t.keyIsAmong keys) rows).2.map t.keyOf? = rows.map t.keyOf? := by
    intro rows
    induction rows with
    | nil => rfl
    | cons row rest ih =>
        rw [incrementEach]
        split
        · split
          · exact congrArg₂ List.cons (keyOf?_insert h row _) ih
          · rfl
        · exact congrArg (List.cons _) ih
  exact heach t.rows

theorem updateFirst_eq_none {attributes values : Row} {rows : List Row} :
    updateFirst attributes values rows = none ↔ ∀ row ∈ rows, hasValues attributes row = false := by
  induction rows with
  | nil => simp [updateFirst]
  | cons row rest ih => cases h : hasValues attributes row <;> simp [updateFirst, h, ih]

theorem updateFirst_eq_some {attributes values found : Row} {rows after : List Row}
    (h : updateFirst attributes values rows = some (found, after)) :
    ∃ before old rest, rows = before ++ old :: rest ∧ (∀ row ∈ before, hasValues attributes row = false) ∧
      hasValues attributes old = true ∧ found = old.merge values ∧ after = before ++ found :: rest := by
  induction rows generalizing after with
  | nil => cases h
  | cons row last ih =>
      by_cases hrow : hasValues attributes row = true
      · rw [updateFirst, if_pos hrow] at h
        obtain ⟨rfl, rfl⟩ := Prod.mk.inj (Option.some.inj h)
        exact ⟨[], row, last, rfl, List.forall_mem_nil _, hrow, rfl, rfl⟩
      · rw [updateFirst, if_neg hrow, Option.map_eq_some_iff] at h
        obtain ⟨⟨found, after⟩, hfound, h⟩ := h
        obtain ⟨rfl, rfl⟩ := Prod.mk.inj h
        obtain ⟨before, old, rest, rfl, hbefore, hold, rfl, rfl⟩ := ih hfound
        have hfalse : hasValues attributes row = false := Bool.eq_false_iff.mpr hrow
        exact ⟨row :: before, old, rest, rfl, List.forall_mem_cons.mpr ⟨hfalse, hbefore⟩, hold, rfl, rfl⟩

end RowQuery.Table
