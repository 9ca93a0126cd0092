import RowQuery.Store.Tuple
import Mathlib.Data.List.Basic

namespace RowQuery

namespace Dict

variable {α : Type}

theorem get?_addAll (d : Dict α) (l : List (String × α)) (name : String) :
    (d.addAll l).get? name = (l.reverse.lookup name).or (d.get? name) := by
  induction l generalizing d with
  | nil => rfl
  | cons e rest ih =>
      rcases e with ⟨other, value⟩
      rw [List.reverse_cons, List.lookup_append, Option.or_assoc, List.lookup_cons]
      refine (ih (d.insert other value)).trans ?_
      rw [get?_insert]
      by_cases h : name = other
      · simp [h]
      · simp [h, beq_false_of_ne h]

theorem get?_addAll_of_ne (d : Dict α) {l : List (String × α)} {name : String} (h : ∀ e ∈ l, e.1 ≠ name) :
    (d.addAll l).get? name = d.get? name := by
  rw [get?_addAll, lookup_eq_none fun e he => h e (List.mem_reverse.mp he), Option.none_or]

theorem get?_addAll_map {f : String → String} (hf : Function.Injective f) (d : Dict α) (names : List String) (value : α)
    (name : String) : (d.addAll (names.map fun n => (f n, value))).get? (f name) =
      if name ∈ names then some value else d.get? (f name) := by
  induction names generalizing d with
  | nil => rfl
  | cons n rest ih =>
      rw [List.map_cons]
      refine (ih (d.insert (f n) value)).trans ?_
      rw [get?_insert]
      by_cases h : name = n
      · simp [h]
      · simp [h, hf.ne h]

theorem lookup_reverse {l : List (String × α)} (h : l.Pairwise fun a b => a.1 < b.1) (name : String) :
    l.reverse.lookup name = l.lookup name := by
  induction l with
  | nil => rfl
  | cons e rest ih =>
      rcases e with ⟨other, value⟩
      obtain ⟨he, hr⟩ := List.pairwise_cons.mp h
      rw [List.reverse_cons, List.lookup_append, ih hr, List.lookup_cons, List.lookup_cons]
      by_cases hname : name = other
      · subst hname
        have hnone : rest.lookup name = none :=
          lookup_eq_none fun f hf heq => String.lt_irrefl _ (heq ▸ he f hf)
        simp [hnone]
      · simp [beq_false_of_ne hname]

theorem lookup_map_names {f : String → String} (hf : Function.Injective f) (l : List (String × α)) (name : String) :
    (l.map fun e => (f e.1, e.2)).lookup (f name) = l.lookup name := by
  induction l with
  | nil => rfl
  | cons e rest ih =>
      rw [List.map_cons, List.lookup_cons, List.lookup_cons, ih]
      by_cases h : name = e.1
      · simp [h]
      · simp [beq_false_of_ne h, beq_false_of_ne (hf.ne h)]

theorem get?_merge (d e : Dict α) (name : String) : (d.merge e).get? name = (e.get? name).or (d.get? name) := by
  rw [merge, get?_addAll, lookup_reverse e.sorted, get?, get?]

theorem merge_empty (d : Dict α) : empty.merge d = d := by
  ext1 name
  rw [get?_merge, get?_empty, Option.or_none]

theorem addAll_cons (d : Dict α) (name : String) (value : α) (l : List (String × α)) :
    d.addAll ((name, value) :: l) = (d.insert name value).addAll l := rfl

theorem addAll_append (d : Dict α) (l m : List (String × α)) : d.addAll (l ++ m) = (d.addAll l).addAll m :=
  List.foldl_append

theorem merge_insert (d e : Dict α) (name : String) (value : α) :
    d.merge (e.insert name value) = (d.merge e).insert name value := by
  ext1 other
  simp only [get?_merge, get?_insert]
  split <;> simp

theorem merge_merge (d e : Dict α) : (d.merge e).merge e = d.merge e := by
  ext1 name
  simp only [get?_merge]
  cases e.get? name <;> rfl

theorem insert_merge {d e : Dict α} {name : String} (value : α) (h : e.get? name = none) :
    (d.insert name value).merge e = (d.merge e).insert name value := by
  ext1 other
  simp only [get?_merge, get?_insert]
  split
  · rename_i hname
    rw [hname, h, Option.none_or]
  · rfl

theorem lookup_of_mem {l : List (String × α)} (h : l.Pairwise fun a b => a.1 < b.1) {e : String × α} (he : e ∈ l) :
    l.lookup e.1 = some e.2 := by
  induction l with
  | nil => cases he
  | cons f rest ih =>
      obtain ⟨hf, hrest⟩ := List.pairwise_cons.mp h
      rcases List.mem_cons.mp he with rfl | he
      · exact List.lookup_cons_self
      · have hne : e.1 ≠ f.1 := fun heq => String.lt_irrefl _ (heq ▸ hf e he)
        rw [List.lookup_cons, beq_false_of_ne hne]
        exact ih hrest he

theorem get?_of_mem {d : Dict α} {e : String × α} (he : e ∈ d.entries) : d.get? e.1 = some e.2 :=
  lookup_of_mem d.sorted he

theorem mem_names {d : Dict α} {name : String} : name ∈ d.names ↔ d.contains name = true := by
  rw [contains, get?, Option.isSome_iff_ne_none, ne_eq, List.lookup_eq_none_iff, names, List.mem_map]
  constructor
  · rintro ⟨e, he, rfl⟩ hnone
    simpa using hnone e he
  · intro h
    by_contra hnone
    refine h fun e he => bne_iff_ne.mpr fun heq => hnone ⟨e, he, heq.symm⟩

theorem contains_merge (d e : Dict α) (name : String) :
    (d.merge e).contains name = true ↔ d.contains name = true ∨ e.contains name = true := by
  rw [contains, get?_merge, contains, contains]
  cases e.get? name <;> simp

theorem contains_insert (d : Dict α) (name : String) (value : α) (other : String) :
    (d.insert name value).contains other = true ↔ other = name ∨ d.contains other = true := by
  rw [contains, get?_insert]
  by_cases h : other = name <;> simp [h, contains]

theorem contains_addAll (d : Dict α) (l : List (String × α)) (name : String) :
    (d.addAll l).contains name = true ↔ name ∈ l.map Prod.fst ∨ d.contains name = true := by
  induction l generalizing d with
  | nil => simp [addAll]
  | cons e rest ih =>
      rw [addAll_cons, ih, contains_insert, List.map_cons, List.mem_cons]
      tauto

end Dict

namespace Tuple

theorem qualify_toList (table column : String) :
    (qualify table column).toList = table.toList ++ '.' :: column.toList := by
  simp [qualify, String.toList_append]

theorem qualify_injective (table : String) : Function.Injective (qualify table) := by
  intro column other h
  have hl := congrArg String.toList h
  rw [qualify_toList, qualify_toList, List.append_cancel_left_eq] at hl
  exact String.toList_inj.mp (List.cons.inj hl).2

theorem table_of_qualify {table other column column' : String} (ht : '.' ∉ table.toList)
    (ho : '.' ∉ other.toList) (h : qualify table column = qualify other column') : table = other := by
  have hl := congrArg (fun s => Text.splitOn '.' s.toList) h
  simp only [qualify_toList, Text.splitOn_append ht, Text.splitOn_append ho] at hl
  exact String.toList_inj.mp (List.cons.inj hl).1

theorem resolve_qualify (t : Tuple) (table column : String) :
    t.resolve (qualify table column) = (t.qualified.get? (qualify table column)).getD .null := by
  simp [resolve, qualify_toList]

/-- A tuple has the columns of a row under the name of a table, and no others under that name. -/
def Carries (t : Tuple) (table : String) (row : Row) : Prop :=
  ∀ column, t.qualified.get? (qualify table column) = row.get? column

/-- A table that is new to a tuple is in it as it is merged. -/
theorem carries_merge {t : Tuple} {table : String} (h : t.Carries table .empty) (row : Row) :
    (t.merge table row).Carries table row := by
  intro column
  have hlookup := Dict.lookup_map_names (qualify_injective table) row.entries.reverse column
  rw [List.map_reverse, Dict.lookup_reverse row.sorted] at hlookup
  refine (Dict.get?_addAll _ _ _).trans ?_
  rw [hlookup, h column]
  exact Option.or_none

theorem carries_ofRow (table : String) (row : Row) : (ofRow table row).Carries table row :=
  carries_merge (fun _ => rfl) row

theorem Carries.merge {t : Tuple} {table other : String} {row : Row} (h : t.Carries table row)
    (ht : '.' ∉ table.toList) (ho : '.' ∉ other.toList) (hne : other ≠ table) (joined : Row) :
    (t.merge other joined).Carries table row := by
  intro column
  refine (Dict.get?_addAll_of_ne _ ?_).trans (h column)
  simp only [List.mem_map, forall_exists_index, and_imp, forall_apply_eq_imp_iff₂]
  exact fun e _ he => hne (table_of_qualify ho ht he)

theorem Carries.mergeNulls {t : Tuple} {table other : String} {row : Row} (h : t.Carries table row)
    (ht : '.' ∉ table.toList) (ho : '.' ∉ other.toList) (hne : other ≠ table) (columns : List String) :
    (t.mergeNulls other columns).Carries table row := by
  intro column
  refine (Dict.get?_addAll_of_ne _ ?_).trans (h column)
  simp only [List.mem_map, forall_exists_index, and_imp, forall_apply_eq_imp_iff₂]
  exact fun c _ hc => hne (table_of_qualify ho ht hc)

theorem Carries.resolve {t : Tuple} {table : String} {row : Row} (h : t.Carries table row) (column : String) :
    t.resolve (qualify table column) = (row.get? column).getD .null := by
  rw [resolve_qualify, h column]

theorem plain_mergeNulls (t : Tuple) (table : String) (columns : List String) (column : String) :
    (t.mergeNulls table columns).plain.get? column =
      (t.plain.get? column).or (if column ∈ columns then some .null else none) := by
  show (columns.foldl (fun row c => if row.contains c then row else row.insert c .null) t.plain).get? column = _
  generalize t.plain = row
  induction columns generalizing row with
  | nil => simp
  | cons c rest ih =>
      rw [List.foldl_cons, ih]
      cases hrow : row.contains c with
      | true =>
          obtain ⟨value, hvalue⟩ := Option.isSome_iff_exists.mp hrow
          by_cases hc : column = c
          · simp [hc, hvalue]
          · simp [hc]
      | false =>
          have hnone : row.get? c = none := by simpa [Dict.contains] using hrow
          by_cases hc : column = c
          · simp [hc, hnone]
          · simp [hc, Dict.get?_insert_of_ne]

theorem qualified_mergeNulls (t : Tuple) (table : String) (columns : List String) (column : String) :
    (t.mergeNulls table columns).qualified.get? (qualify table column) =
      if column ∈ columns then some .null else t.qualified.get? (qualify table column) :=
  Dict.get?_addAll_map (qualify_injective table) t.qualified columns .null column

theorem columnOf?_eq_some {table name column : String} :
    columnOf? table name = some column ↔ name = qualify table column := by
  have hstart : (qualify table "").toList = table.toList ++ ['.'] := qualify_toList table ""
  rw [columnOf?, Option.map_eq_some_iff, hstart, ← String.toList_inj, qualify_toList]
  constructor
  · rintro ⟨rest, hrest, rfl⟩
    rw [List.isPrefixOf?_eq_some_iff_append_eq] at hrest
    rw [← hrest, String.toList_ofList, List.append_assoc]
    rfl
  · intro hname
    refine ⟨column.toList, ?_, String.ofList_toList⟩
    rw [List.isPrefixOf?_eq_some_iff_append_eq, hname, List.append_assoc]
    rfl

theorem lookup_columnOf? (table column : String) (l : List (String × Json)) :
    (l.filterMap fun e => (columnOf? table e.1).map fun c => (c, e.2)).lookup column =
      l.lookup (qualify table column) := by
  induction l with
  | nil => rfl
  | cons e rest ih =>
      rw [List.lookup_cons]
      cases h : columnOf? table e.1 with
      | none =>
          have hne : qualify table column ≠ e.1 := by
            intro heq
            rw [columnOf?_eq_some.mpr heq.symm] at h
            cases h
          rw [List.filterMap_cons_none (by simp [h]), ih, beq_false_of_ne hne]
      | some c =>
          rw [List.filterMap_cons_some (by simp [h]; rfl), List.lookup_cons, ih, columnOf?_eq_some.mp h]
          by_cases hc : column = c
          · simp [hc]
          · simp [beq_false_of_ne hc, beq_false_of_ne ((qualify_injective table).ne hc)]

theorem get?_tableColumns (t : Tuple) (table column : String) :
    (t.tableColumns table).get? column = t.qualified.get? (qualify table column) := by
  refine (Dict.get?_addAll _ _ _).trans ?_
  rw [← List.filterMap_reverse, lookup_columnOf?, Dict.lookup_reverse t.qualified.sorted]
  exact Option.or_none

theorem Carries.tableColumns {t : Tuple} {table : String} {row : Row} (h : t.Carries table row) :
    t.tableColumns table = row := by
  ext1 column
  rw [get?_tableColumns, h column]

end Tuple

end RowQuery
