import RowQuery.Proofs.KeyIntegrity

namespace RowQuery

namespace Table

variable {t t' : Table} {name : String} {attributes values row old : Row} {before rest : List Row}

/-- No column is in both rows. -/
def Apart (attributes values : Row) : Prop := ∀ column, attributes.get? column = none ∨ values.get? column = none

/-- The first row with the attributes has the values too. -/
structure Settled (t : Table) (attributes values row : Row) : Prop where
  first : ∃ before rest, t.rows = before ++ row :: rest ∧ ∀ r ∈ before, hasValues attributes r = false
  found : hasValues attributes row = true
  merged : row.merge values = row

theorem hasValues_of_holds (h : ∀ e ∈ attributes.entries, row.get? e.1 = some e.2) :
    hasValues attributes row = true := by
  refine List.all_eq_true.mpr fun e he => ?_
  rw [h e he, Option.any_some, Json.same_self, Bool.true_or]

theorem hasValues_of_agrees (h : ∀ e ∈ attributes.entries, row.get? e.1 = old.get? e.1)
    (hold : hasValues attributes old = true) : hasValues attributes row = true := by
  refine List.all_eq_true.mpr fun e he => ?_
  rw [h e he]
  exact List.all_eq_true.mp hold e he

theorem Apart.values_none (h : Apart attributes values) {e : String × Json} (he : e ∈ attributes.entries) :
    values.get? e.1 = none := by
  refine (h e.1).resolve_left fun hnone => ?_
  rw [Dict.get?_of_mem he] at hnone
  cases hnone

theorem Apart.get?_merge (h : Apart attributes values) (row : Row) :
    ∀ e ∈ attributes.entries, (row.merge values).get? e.1 = row.get? e.1 := by
  intro e he
  rw [Dict.get?_merge, h.values_none he, Option.none_or]

theorem updateFirst_append (hbefore : ∀ r ∈ before, hasValues attributes r = false)
    (hold : hasValues attributes old = true) :
    updateFirst attributes values (before ++ old :: rest) =
      some (old.merge values, before ++ old.merge values :: rest) := by
  induction before with
  | nil => rw [List.nil_append, updateFirst, if_pos hold, List.nil_append]
  | cons r before ih =>
      obtain ⟨hr, hbefore⟩ := List.forall_mem_cons.mp hbefore
      rw [List.cons_append, updateFirst, if_neg (by simp [hr]), ih hbefore]
      rfl

theorem updateOrCreate_of_settled (h : t.Settled attributes values row) (name : String) :
    t.updateOrCreate name attributes values = .ok (row, t) := by
  obtain ⟨before, rest, hrows, hbefore⟩ := h.first
  have hfirst : updateFirst attributes values t.rows = some (row, t.rows) := by
    rw [hrows, updateFirst_append hbefore h.found, h.merged]
  rw [updateOrCreate, hfirst]

/-- Without nulls for the key, a row that has no key comes from two rows without one. -/
theorem unkeyed_of_merge (hattributes : attributes.get? t.primaryKey ≠ some .null)
    (hvalues : values.get? t.primaryKey ≠ some .null) (h : t.keyOf? (attributes.merge values) = none) :
    values.get? t.primaryKey = none ∧ attributes.get? t.primaryKey = none := by
  have hpresent : (values.get? t.primaryKey).or (attributes.get? t.primaryKey) ≠ some .null := by
    cases hgiven : values.get? t.primaryKey with
    | none => exact hattributes
    | some key => exact fun hnull => hvalues (hgiven.trans hnull)
  rw [keyOf?, Dict.get?_merge, Option.filter_eq_none_iff] at h
  refine Option.or_eq_none_iff.mp (Option.eq_none_iff_forall_ne_some.mpr fun key hkey => ?_)
  have hnull : key.isNull = true := by simpa using h key hkey
  exact hpresent (Json.isNull_iff.mp hnull ▸ hkey)

/-- A row that came with its key, or was given one, is merged with values that have no key of their own. -/
theorem settled_of_insert (hapart : Apart attributes values) (hattributes : attributes.get? t.primaryKey ≠ some .null)
    (hvalues : values.get? t.primaryKey ≠ some .null) (hbefore : ∀ r ∈ t.rows, hasValues attributes r = false)
    (h : t.insert name (attributes.merge values) = .ok (row, t')) : t'.Settled attributes values row := by
  have hrows : t'.rows = t.rows ++ [row] := (insert_appends h).2
  have hfirst : ∃ before rest, t'.rows = before ++ row :: rest ∧ ∀ r ∈ before, hasValues attributes r = false :=
    ⟨t.rows, [], hrows, hbefore⟩
  have hmerged : ∀ e ∈ attributes.entries, (attributes.merge values).get? e.1 = some e.2 := by
    intro e he
    rw [hapart.get?_merge attributes e he, Dict.get?_of_mem he]
  rcases insert_eq_ok.mp h with ⟨key, -, -, rfl, -⟩ | ⟨hnone, rfl, -⟩
  · exact ⟨hfirst, hasValues_of_holds hmerged, Dict.merge_merge attributes values⟩
  · obtain ⟨hvalues, hattributes⟩ := unkeyed_of_merge hattributes hvalues hnone
    refine ⟨hfirst, hasValues_of_holds fun e he => ?_, ?_⟩
    · have hne : e.1 ≠ t.primaryKey := by
        intro heq
        rw [← heq, Dict.get?_of_mem he] at hattributes
        cases hattributes
      rw [Dict.get?_insert_of_ne _ _ hne, hmerged e he]
    · rw [Dict.insert_merge _ hvalues, Dict.merge_merge]

theorem settled_of_updateOrCreate (hapart : Apart attributes values)
    (hattributes : attributes.get? t.primaryKey ≠ some .null) (hvalues : values.get? t.primaryKey ≠ some .null)
    (h : t.updateOrCreate name attributes values = .ok (row, t')) : t'.Settled attributes values row := by
  rcases updateOrCreate_cases h with ⟨before, old, rest, hrows, hbefore, hold, rfl, rfl⟩ | ⟨hbefore, hinsert⟩
  · exact ⟨⟨before, rest, rfl, hbefore⟩, hasValues_of_agrees (hapart.get?_merge old) hold, Dict.merge_merge old values⟩
  · exact settled_of_insert hapart hattributes hvalues hbefore hinsert

end Table

namespace Store

/-- To update or create twice in a row is the same as to do it once. -/
theorem updateOrCreate_twice {s : Store} {table : String} {attributes values : Row}
    (hapart : Table.Apart attributes values)
    (hkey : ∀ t, s.table table = .ok t →
      attributes.get? t.primaryKey ≠ some .null ∧ values.get? t.primaryKey ≠ some .null) :
    (s.updateOrCreate table attributes values).2.updateOrCreate table attributes values =
      s.updateOrCreate table attributes values := by
  refine tryTable_twice fun t row t' ht h => ?_
  obtain ⟨hattributes, hvalues⟩ := hkey t ht
  exact Table.updateOrCreate_of_settled (Table.settled_of_updateOrCreate hapart hattributes hvalues h) table

/-- Two people, of whom one has a null for the mail and one has none. -/
def register : Store where
  tables := .ofList [("people", { primaryKey := "id", nextKey := 3, rows := [
    .ofList [("id", .ofInt64 1), ("mail", .null), ("name", .string "ann")],
    .ofList [("id", .ofInt64 2), ("name", .string "dee")]] })]

/-- The first call makes a row, which it gives a key, and the second call finds this row. -/
theorem updateOrCreate_twice_register :
    let attributes : Row := .ofList [("mail", .null), ("name", .string "dee")]
    let values : Row := .ofList [("age", .ofInt64 30)]
    Table.Apart attributes values ∧
      (∀ t, register.table "people" = .ok t →
        attributes.get? t.primaryKey ≠ some .null ∧ values.get? t.primaryKey ≠ some .null) ∧
      (register.updateOrCreate "people" attributes values).1.toOption = some (.ofList
        [("age", .ofInt64 30), ("id", .ofInt64 3), ("mail", .null), ("name", .string "dee")]) ∧
      (register.updateOrCreate "people" attributes values).2.updateOrCreate "people" attributes values =
        register.updateOrCreate "people" attributes values := by
  intro attributes values
  have hapart : Table.Apart attributes values := by
    intro column
    by_cases hage : column = "age"
    · exact .inl (by rw [hage]; decide)
    · right
      show (Dict.insert .empty "age" _).get? column = none
      rw [Dict.get?_insert_of_ne _ _ hage, Dict.get?_empty]
  have hkey : ∀ t, register.table "people" = .ok t →
      attributes.get? t.primaryKey ≠ some .null ∧ values.get? t.primaryKey ≠ some .null := by
    intro t ht
    have hprimary : t.primaryKey = "id" := by
      have hname : (register.table "people").toOption.all (·.primaryKey = "id") = true := by decide
      simpa [ht, Except.toOption] using hname
    rw [hprimary]
    decide
  exact ⟨hapart, hkey, by decide, updateOrCreate_twice hapart hkey⟩

end Store

end RowQuery
