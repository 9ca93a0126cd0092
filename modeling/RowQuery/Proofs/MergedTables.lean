import RowQuery.Proofs.AddedColumns
import Mathlib.Data.List.Induction

namespace RowQuery

namespace Tuple

/-- One step in the making of a tuple: a row of a table, or a table of which no row fitted. -/
inductive Part
  | row (table : String) (r : Row)
  | nulls (table : String) (columns : List String)

namespace Part

def table : Part → String
  | .row table _ => table
  | .nulls table _ => table

/-- What is merged for the table: its row, or nulls in all its columns. -/
def merged : Part → Row
  | .row _ r => r
  | .nulls _ columns => .ofList (columns.map fun column => (column, .null))

/-- The value that a row gives to a plain name. Nulls for want of a row give none. -/
def given? (column : String) : Part → Option Json
  | .row _ r => r.get? column
  | .nulls _ _ => none

theorem get?_merged_nulls (table : String) (columns : List String) (column : String) :
    (nulls table columns).merged.get? column = if column ∈ columns then some .null else none :=
  Dict.get?_addAll_map Function.injective_id Dict.empty columns Json.null column

theorem get?_merged_of_not_given {p : Part} {column : String} (h : p.given? column = none) :
    p.merged.get? column = if p.merged.contains column = true then some .null else none := by
  rw [Dict.contains]
  cases p with
  | row table r =>
      have hnone : r.get? column = none := h
      simp [merged, hnone]
  | nulls table columns =>
      rw [get?_merged_nulls]
      split <;> rfl

end Part

def add (t : Tuple) : Part → Tuple
  | .row table r => t.merge table r
  | .nulls table columns => t.mergeNulls table columns

def ofParts (parts : List Part) : Tuple := parts.foldl add {}

/-- What is merged for a table; a table that is not among the parts has no columns. -/
def mergedFor (table : String) (parts : List Part) : Row :=
  ((parts.find? (·.table = table)).map Part.merged).getD .empty

/-- The value of a column in the last of the rows that have it. -/
def lastGiven? (column : String) (parts : List Part) : Option Json := (parts.filterMap (Part.given? column)).getLast?

variable {t : Tuple} {p : Part} {parts : List Part} {table column : String} {row : Row}

theorem ofParts_concat (parts : List Part) (p : Part) : ofParts (parts ++ [p]) = (ofParts parts).add p :=
  List.foldl_concat ..

theorem Carries.add (h : t.Carries table row) (ht : '.' ∉ table.toList) (hp : '.' ∉ p.table.toList)
    (hne : p.table ≠ table) : (t.add p).Carries table row := by
  cases p with
  | row other r => exact h.merge ht hp hne r
  | nulls other columns => exact h.mergeNulls ht hp hne columns

theorem carries_add (h : t.Carries p.table .empty) : (t.add p).Carries p.table p.merged := by
  cases p with
  | row table r => exact carries_merge h r
  | nulls table columns =>
      intro column
      have hnone : t.qualified.get? (qualify table column) = none := h column
      rw [Part.get?_merged_nulls, ← hnone]
      exact t.qualified_mergeNulls table columns column

/-- The induction takes the last part off: it is new, and leaves what was merged for the tables before it. -/
theorem carries_ofParts (hdistinct : (parts.map Part.table).Nodup) (hdots : ∀ p ∈ parts, '.' ∉ p.table.toList)
    (ht : '.' ∉ table.toList) : (ofParts parts).Carries table (mergedFor table parts) := by
  induction parts using List.reverseRecOn generalizing table with
  | nil => exact fun _ => rfl
  | append_singleton parts p ih =>
      rw [List.map_append, List.nodup_append] at hdistinct
      obtain ⟨hbefore, -, hnew⟩ := hdistinct
      obtain ⟨hdots, hp⟩ := List.forall_mem_append.mp hdots
      have hp : '.' ∉ p.table.toList := hp p (List.mem_singleton_self p)
      rw [ofParts_concat]
      by_cases hne : p.table = table
      · subst hne
        have hnone : parts.find? (·.table = p.table) = none := by
          rw [List.find?_eq_none]
          intro q hq
          simpa using hnew q.table (List.mem_map_of_mem hq) p.table (by simp)
        have hempty : mergedFor p.table parts = .empty := by rw [mergedFor, hnone]; rfl
        have hmerged : mergedFor p.table (parts ++ [p]) = p.merged := by
          simp [mergedFor, List.find?_append, hnone]
        rw [hmerged]
        exact carries_add (hempty ▸ ih hbefore hdots ht)
      · have hmerged : mergedFor table (parts ++ [p]) = mergedFor table parts := by
          simp [mergedFor, List.find?_append, hne]
        rw [hmerged]
        exact (ih hbefore hdots ht).add ht hp hne

theorem plain_add (t : Tuple) (p : Part) (column : String) : (t.add p).plain.get? column =
    (p.given? column).or ((t.plain.get? column).or (p.merged.get? column)) := by
  cases p with
  | row table r =>
      refine (Dict.get?_merge _ _ _).trans ?_
      show _ = (r.get? column).or ((t.plain.get? column).or (r.get? column))
      cases r.get? column <;> cases t.plain.get? column <;> rfl
  | nulls table columns =>
      rw [add, plain_mergeNulls, Part.get?_merged_nulls]
      rfl

theorem plain_ofParts (parts : List Part) (column : String) : (ofParts parts).plain.get? column =
    (lastGiven? column parts).or (if ∃ p ∈ parts, p.merged.contains column = true then some .null else none) := by
  induction parts using List.reverseRecOn with
  | nil => simp [ofParts, lastGiven?]
  | append_singleton parts p ih =>
      have hlast : lastGiven? column (parts ++ [p]) = (p.given? column).or (lastGiven? column parts) := by
        rw [lastGiven?, List.filterMap_append, List.getLast?_append]
        cases h : p.given? column <;> simp [h, lastGiven?]
      rw [ofParts_concat, plain_add, ih, hlast, Option.or_assoc]
      cases hgiven : p.given? column with
      | some value => rfl
      | none =>
          rw [Option.none_or, Option.none_or, Part.get?_merged_of_not_given hgiven]
          congr 1
          simp only [List.mem_append, List.mem_singleton, or_and_right, exists_or, exists_eq_left]
          by_cases hbefore : ∃ q ∈ parts, q.merged.contains column = true
          · simp [hbefore]
          · simp [hbefore]

theorem contains_plain_ofParts (parts : List Part) (column : String) :
    (ofParts parts).plain.contains column = true ↔ ∃ p ∈ parts, p.merged.contains column = true := by
  rw [Dict.contains, plain_ofParts]
  cases hlast : lastGiven? column parts with
  | none => split <;> simp_all
  | some value =>
      refine iff_of_true rfl ?_
      obtain ⟨p, hp, hgiven⟩ := List.mem_filterMap.mp (List.mem_of_getLast? hlast)
      refine ⟨p, hp, ?_⟩
      cases p with
      | row table r => exact Option.isSome_iff_exists.mpr ⟨value, hgiven⟩
      | nulls table columns => cases hgiven

theorem project_starred {q : Query} (hq : q.columns = [qualify q.table "*"]) (h : t.Carries q.table row) :
    t.project q = row := by
  have hstar : starredTable? (qualify q.table "*") = some q.table := by
    rw [starredTable?, Option.map_eq_some_iff]
    refine ⟨q.table.toList, ?_, String.ofList_toList⟩
    rw [List.isSuffixOf?_eq_some_iff_append_eq, qualify_toList]
    rfl
  have hone : ¬q.selectsAll = true := by
    rw [Query.selectsAll, hq, List.contains_iff_mem, List.mem_singleton]
    intro heq
    have hdot : '.' ∈ (qualify q.table "*").toList := by simp [qualify_toList]
    rw [← heq] at hdot
    exact absurd hdot (by decide)
  rw [project, if_neg hone, hq]
  show t.addColumn .empty (qualify q.table "*") = row
  rw [addColumn, hstar, ← h.tableColumns]
  exact Dict.merge_empty _

end Tuple

namespace Store

variable {s : Store} {q : Query} {tuples : List Tuple}

/-- What loads add leaves all other columns as they are shown. -/
theorem shown_of_materialize {rows : List Row} (h : s.materialize q tuples = .ok rows) :
    List.Forall₂ (fun t row => ∀ column, column ∉ q.loads.map EagerLoad.column →
      row.get? column = (t.project q).get? column) tuples rows := by
  obtain ⟨added, hadded, rfl⟩ := materialize_eq_ok.mp h
  have hread := Outcome.mapM_eq_ok.mp hadded
  clear h hadded
  induction hread with
  | nil => exact .nil
  | @cons t columns _ _ hload _ ih =>
      refine .cons (fun column hcolumn => ?_) ih
      have hnone : columns.get? column = none := by
        simpa [Dict.contains] using mt (contains_addedColumns hload column).mp hcolumn
      rw [Dict.get?_merge, hnone, Option.none_or]

/-- Whatever tables are merged into a tuple, each can be taken out of it as it went in, a plain name stands for what
the last row that has it gave, and a query for all of its base table shows the stored rows. Loads add to them. -/
theorem tables_recoverable :
    (∀ parts : List Tuple.Part, (parts.map Tuple.Part.table).Nodup → (∀ p ∈ parts, '.' ∉ p.table.toList) →
      (∀ table, '.' ∉ table.toList →
        (∀ column, (Tuple.ofParts parts).resolve (Tuple.qualify table column) =
          ((Tuple.mergedFor table parts).get? column).getD .null) ∧
        (Tuple.ofParts parts).tableColumns table = Tuple.mergedFor table parts) ∧
      ∀ column, '.' ∉ column.toList →
        (Tuple.ofParts parts).resolve column = (Tuple.lastGiven? column parts).getD .null ∧
        ((Tuple.ofParts parts).plain.contains column = true ↔ ∃ p ∈ parts, p.merged.contains column = true)) ∧
    ∀ (s : Store) (q : Query) (tuples : List Tuple), q.JoinsApart → s.selectTuples q = .ok tuples →
      ∃ base traced rows, s.table q.table = .ok base ∧ s.trace q = .ok traced ∧ traced.map Prod.snd = tuples ∧
        s.get { q with columns := [Tuple.qualify q.table "*"], loads := [] } = .ok rows ∧
        List.Forall₂ (fun e row => base.rows[e.1]? = some row) traced rows ∧
        ∀ loaded, s.get { q with columns := [Tuple.qualify q.table "*"] } = .ok loaded →
          List.Forall₂ (fun e row => ∃ stored, base.rows[e.1]? = some stored ∧
            ∀ column, column ∉ q.loads.map EagerLoad.column → row.get? column = stored.get? column) traced loaded := by
  refine ⟨fun parts hdistinct hdots => ⟨fun table ht => ?_, fun column hcolumn => ?_⟩, fun s q tuples hq htuples => ?_⟩
  · have hcarries := Tuple.carries_ofParts hdistinct hdots ht
    exact ⟨fun column => hcarries.resolve column, hcarries.tableColumns⟩
  · have hplain := Tuple.plain_ofParts parts column
    constructor
    · rw [Tuple.resolve, if_neg (by simpa using hcolumn), hplain]
      cases Tuple.lastGiven? column parts with
      | some value => rfl
      | none => split <;> rfl
    · exact Tuple.contains_plain_ofParts parts column
  · obtain ⟨traced, htraced, rfl⟩ := exists_trace htuples
    obtain ⟨base, hbase⟩ := table_of_trace htraced
    let starred : Query := { q with columns := [Tuple.qualify q.table "*"] }
    have hstored : ∀ e ∈ traced, base.rows[e.1]? = some (e.2.project starred) := by
      intro e he
      obtain ⟨row, hrow, hcarries⟩ := carries_of_trace hq hbase htraced he
      have hproject : e.2.project starred = row := Tuple.project_starred rfl hcarries
      rw [hrow, hproject]
    refine ⟨base, traced, traced.map fun e => e.2.project starred, hbase, htraced, rfl, ?_, ?_, fun loaded hloaded => ?_⟩
    · have hselect : s.selectTuples { starred with loads := [] } = .ok (traced.map Prod.snd) := htuples
      rw [get_of_noLoads s rfl, hselect]
      exact congrArg Except.ok List.map_map
    · exact List.forall₂_map_right_iff.mpr (List.forall₂_same.mpr hstored)
    · obtain ⟨tuples', htuples', hshown⟩ := Outcome.bind_eq_ok.mp hloaded
      obtain rfl := Except.ok.inj (htuples.symm.trans htuples')
      have hkept := List.forall₂_map_left_iff.mp (shown_of_materialize hshown)
      refine ((List.forall₂_and_left _ _).mpr ⟨hstored, hkept⟩).imp fun e row hrow => ?_
      exact ⟨e.2.project starred, hrow.1, hrow.2⟩

/-- A person without an order, who has written a book. -/
def authorParts : List Tuple.Part :=
  [.row "people" (.ofList [("id", .ofInt64 1), ("name", .string "ann")]), .nulls "orders" ["id", "total"],
    .row "books" (.ofList [("id", .ofInt64 7)])]

theorem tables_recoverable_authors :
    (authorParts.map Tuple.Part.table).Nodup ∧ (∀ p ∈ authorParts, '.' ∉ p.table.toList) ∧
    (Tuple.ofParts authorParts).resolve "people.id" = .ofInt64 1 ∧
    (Tuple.ofParts authorParts).resolve "orders.id" = .null ∧ (Tuple.ofParts authorParts).resolve "id" = .ofInt64 7 ∧
    (Tuple.ofParts authorParts).tableColumns "people" = .ofList [("id", .ofInt64 1), ("name", .string "ann")] ∧
    Query.purchases.JoinsApart ∧
    ∃ base traced rows, shop.table "people" = .ok base ∧ shop.trace Query.purchases = .ok traced ∧ traced.length = 2 ∧
      shop.get { Query.purchases with columns := ["people.*"] } = .ok rows ∧
      List.Forall₂ (fun e row => base.rows[e.1]? = some row) traced rows := by
  have hdistinct : (authorParts.map Tuple.Part.table).Nodup := by decide
  have hdots : ∀ p ∈ authorParts, '.' ∉ p.table.toList := by decide
  have hapart : Query.purchases.JoinsApart := ⟨by decide, by decide⟩
  have hselect : (shop.selectTuples Query.purchases).toOption.any (fun tuples => tuples.length = 2) = true := by
    decide
  obtain ⟨tuples, htuples, htwo⟩ := Outcome.toOption_any.mp hselect
  obtain ⟨hparts, hqueries⟩ := tables_recoverable
  obtain ⟨htables, hplain⟩ := hparts authorParts hdistinct hdots
  obtain ⟨base, traced, rows, hbase, htraced, hmap, hrows, hstored, -⟩ :=
    hqueries shop Query.purchases tuples hapart htuples
  refine ⟨hdistinct, hdots, ((htables "people" (by decide)).1 "id").trans (by decide),
    ((htables "orders" (by decide)).1 "id").trans (by decide), (hplain "id" (by decide)).1.trans (by decide),
    (htables "people" (by decide)).2.trans (by decide), hapart, base, traced, rows, hbase, htraced, ?_, hrows,
    hstored⟩
  rw [← List.length_map (f := Prod.snd), hmap]
  exact of_decide_eq_true htwo

end Store

end RowQuery
