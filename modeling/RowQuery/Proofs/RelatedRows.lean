import RowQuery.Proofs.LoadTree
import RowQuery.Proofs.Origin
import RowQuery.Proofs.SingleTable
import RowQuery.Proofs.StableSort
import RowQuery.Proofs.Tables

namespace RowQuery

/-- The order of two rows by a column. -/
def Row.orderBy (o : Order) (a b : Row) : Ordering :=
  let order := (a.cell o.column).sortOrder (b.cell o.column)
  if o.direction.isAscending then order else order.swap

namespace Scope

/-- A row has an equal value in a column and meets every condition as it stands, one with a null value too. -/
def Fits (sc : Scope) (column : String) (key : Json) (row : Row) : Prop :=
  (row.cell column).equal key = true ∧
    ∀ p ∈ sc.conditions, Operator.evaluate p.operator (row.cell p.column) p.value = .ok true

instance (sc : Scope) (column : String) (key : Json) : DecidablePred (sc.Fits column key) :=
  fun _ => inferInstanceAs (Decidable (_ ∧ _))

def cut {α : Type} (sc : Scope) (rows : List α) : List α :=
  match sc.limit with
  | some n => rows.take n.toNat
  | none => rows

/-- The rows that fit, as they stand in the table or in the order that is asked for, up to the limit. -/
def Chooses (sc : Scope) (column : String) (key : Json) (rows chosen : List Row) : Prop :=
  let fitting := rows.filter (sc.Fits column key)
  match sc.order with
  | none => chosen = sc.cut fitting
  | some o => ∃ sorted, sorted.Perm fitting ∧ chosen = sc.cut sorted ∧
      (PreorderOn (Row.orderBy o) fitting → StablySorted (Row.orderBy o) fitting sorted)

/-- The columns that are shown of a related row; none stands for all. -/
def shown (sc : Scope) : List String := sc.fields.getD []

end Scope

/-- Related rows as one value: a list of them, or the first one, or null if there is none. -/
def RelationKind.gather : RelationKind → List Row → Json
  | many, rows => .array (rows.map .ofRow)
  | one, [] => .null
  | one, row :: _ => .ofRow row

namespace Store

open LoadNode (names)

mutual

/-- A value is what belongs to a parent row under the name of a node. -/
def Attached (s : Store) (table : String) (parent : Row) : LoadNode → Json → Prop
  | .node name scope children, value => ∃ t r, s.table table = .ok t ∧ t.relations.get? name = some r ∧
    let key := parent.cell r.parentColumn
    let sc := scope.getD {}
    (key = .null ∧ value = r.kind.gather [] ∨
      key ≠ .null ∧ ∃ u chosen results, s.table r.relatedTable = .ok u ∧
        sc.Chooses r.relatedColumn key u.rows chosen ∧
        List.Forall₂ (fun row result => AllAttached s r.relatedTable row children result ∧
          ∀ column, column ∉ names children → result.get? column = (row.only sc.shown).get? column) chosen results ∧
        value = r.kind.gather results)

def AllAttached (s : Store) (table : String) (parent : Row) : List LoadNode → Row → Prop
  | [], _ => True
  | n :: rest, row =>
    (∃ value, row.get? n.name = some value ∧ Attached s table parent n value) ∧ AllAttached s table parent rest row

end

variable {s : Store} {r : Relation} {key : Json} {scope : Option Scope}

theorem allAttached_iff {table : String} {parent row : Row} {nodes : List LoadNode} :
    s.AllAttached table parent nodes row ↔
      ∀ n ∈ nodes, ∃ value, row.get? n.name = some value ∧ s.Attached table parent n value := by
  induction nodes with
  | nil => simp [AllAttached]
  | cons n rest ih => rw [AllAttached, ih, List.forall_mem_cons]

/-- The query for the related rows of one parent, with each part of the scope in its place. -/
def scopedQuery (r : Relation) (key : Json) (sc : Scope) : Query where
  table := r.relatedTable
  columns := if sc.shown = [] then ["*"] else sc.shown
  clauses := .single (.compare r.relatedColumn "=" key) ::
    if sc.conditions = [] then [] else [⟨.and, sc.conditions.map .ofPredicate⟩]
  orders := sc.order.toList
  pagination := sc.limit.map fun n => { limit := some n }

theorem relatedQuery_eq (r : Relation) (key : Json) (scope : Option Scope) :
    relatedQuery r key scope = scopedQuery r key (scope.getD {}) := by
  cases scope with
  | none => rfl
  | some sc =>
      rcases sc with ⟨conditions, fields, order, limit⟩
      -- Each part of the scope sets a part of the query of its own, so the cases do not meet.
      cases fields with
      | none =>
          by_cases hconditions : conditions = [] <;> cases order <;> cases limit <;>
            simp [relatedQuery, scopedQuery, Scope.apply, Scope.shown, hconditions, Query.whereEqual, Query.condition, Query.clause,
              Query.orderBy, Query.limit]
      | some columns =>
          by_cases hcolumns : columns = [] <;> by_cases hconditions : conditions = [] <;> cases order <;>
            cases limit <;>
            simp [relatedQuery, scopedQuery, Scope.apply, Scope.shown, hcolumns, hconditions, Query.whereEqual, Query.condition,
              Query.clause, Query.select, Query.orderBy, Query.limit]

variable {sc : Scope}

theorem meetsAll_scoped (t : Tuple) (hkey : key.isNull = false) :
    t.meetsAll (scopedQuery r key sc).clauses = .ok true ↔
      (t.resolve r.relatedColumn).equal key = true ∧
        ∀ p ∈ sc.conditions, Operator.evaluate p.operator (t.resolve p.column) p.value = .ok true := by
  have hsingle : t.meetsClause (.single (.compare r.relatedColumn "=" key)) = .ok true ↔
      (t.resolve r.relatedColumn).equal key = true := by
    have hone : t.meetsAll [.single (.compare r.relatedColumn "=" key)] = .ok true ↔
        t.meetsClause (.single (.compare r.relatedColumn "=" key)) = .ok true := by
      rw [Tuple.meetsAll, Outcome.allM_eq_ok_true, List.forall_mem_singleton]
    rw [← hone, t.meetsAll_equal r.relatedColumn hkey, Except.ok.injEq]
  have hgroup : t.meetsClause ⟨.and, sc.conditions.map .ofPredicate⟩ = .ok true ↔
      ∀ p ∈ sc.conditions, Operator.evaluate p.operator (t.resolve p.column) p.value = .ok true := by
    cases sc.conditions with
    | nil => simp [Tuple.meetsClause]
    | cons p rest =>
        have hall : t.meetsClause ⟨.and, (p :: rest).map .ofPredicate⟩ = .ok true ↔ _ := Outcome.allM_eq_ok_true
        rw [hall, List.forall_mem_map]
        rfl
  rw [scopedQuery, Tuple.meetsAll, Outcome.allM_eq_ok_true, List.forall_mem_cons, hsingle]
  refine and_congr_right fun _ => ?_
  by_cases hnone : sc.conditions = []
  · simp [hnone]
  · rw [if_neg hnone, List.forall_mem_singleton, hgroup]

theorem passes_scoped (hcolumn : '.' ∉ r.relatedColumn.toList) (hplain : sc.Plain) (hkey : key.isNull = false)
    (table : String) (row : Row) :
    passes (·.meetsAll (scopedQuery r key sc).clauses) (Tuple.ofRow table row) =
      decide (sc.Fits r.relatedColumn key row) := by
  rw [Bool.eq_iff_iff, passes_iff, meetsAll_scoped _ hkey, decide_eq_true_eq, Scope.Fits, Tuple.resolve_ofRow hcolumn]
  refine and_congr_right fun _ => forall₂_congr fun p hp => ?_
  rw [Tuple.resolve_ofRow (hplain.conditions p hp)]

theorem paginated_scoped {α : Type} (sc : Scope) (rows : List α) :
    paginated (sc.limit.map fun n => { limit := some n }) rows = sc.cut rows := by
  unfold Scope.cut
  cases sc.limit with
  | none => rfl
  | some n => exact paginated_limit n rows

theorem map_cut {α β : Type} (f : α → β) (rows : List α) : (sc.cut rows).map f = sc.cut (rows.map f) := by
  rw [← paginated_scoped, ← paginated_scoped, map_paginated]

theorem sortedBy_ofRow {o : Order} (ho : '.' ∉ o.column.toList) (table : String) (rows : List Row) :
    sortedBy (Tuple.order [o]) (rows.map (Tuple.ofRow table)) =
      (sortedBy (Row.orderBy o) rows).map (Tuple.ofRow table) := by
  have horder : (fun a b => Tuple.order [o] (Tuple.ofRow table a) (Tuple.ofRow table b)) = Row.orderBy o := by
    funext a b
    simp [Tuple.order, Tuple.orderBy, Row.orderBy, Tuple.resolve_ofRow ho]
  rw [← map_sortedBy, horder]

/-- The rows that are selected for one parent are those that its scope chooses. -/
theorem selectTuples_scoped {tuples : List Tuple} (hcolumn : '.' ∉ r.relatedColumn.toList) (hplain : sc.Plain)
    (hkey : key.isNull = false) (h : s.selectTuples (scopedQuery r key sc) = .ok tuples) :
    ∃ u chosen, s.table r.relatedTable = .ok u ∧ sc.Chooses r.relatedColumn key u.rows chosen ∧
      tuples = chosen.map (Tuple.ofRow r.relatedTable) := by
  obtain ⟨joined, hjoined, -⟩ := selectTuples_eq_ok.mp h
  obtain ⟨u, hu, -⟩ := Outcome.bind_eq_ok.mp hjoined
  obtain ⟨-, htuples⟩ := (selectTuples_of_plain rfl hu).mp h
  have hfits : (fun row => passes (·.meetsAll (scopedQuery r key sc).clauses)
      (Tuple.ofRow (scopedQuery r key sc).table row)) = fun row => decide (sc.Fits r.relatedColumn key row) := by
    funext row
    exact passes_scoped hcolumn hplain hkey _ row
  rw [hfits] at htuples
  have hcut : tuples = sc.cut (sortedBy (Tuple.order sc.order.toList)
      ((u.rows.filter (sc.Fits r.relatedColumn key)).map (Tuple.ofRow r.relatedTable))) :=
    htuples.trans (paginated_scoped sc _)
  cases horder : sc.order with
  | none =>
      refine ⟨u, sc.cut (u.rows.filter (sc.Fits r.relatedColumn key)), hu, ?_, ?_⟩
      · rw [Scope.Chooses, horder]
      · rw [hcut, horder, Option.toList_none, sortedBy_nil, map_cut]
  | some o =>
      refine ⟨u, sc.cut (sortedBy (Row.orderBy o) (u.rows.filter (sc.Fits r.relatedColumn key))), hu, ?_, ?_⟩
      · rw [Scope.Chooses, horder]
        exact ⟨_, sortedBy_perm _ _, rfl, PreorderOn.stablySorted⟩
      · rw [hcut, horder, Option.toList_some, sortedBy_ofRow (hplain.order o horder), map_cut]

/-- No relation leads to a column with a point in its name. -/
def RelationsPlain (s : Store) : Prop :=
  ∀ e ∈ s.tables.entries, ∀ f ∈ e.2.relations.entries, '.' ∉ f.2.relatedColumn.toList

instance (s : Store) : Decidable s.RelationsPlain :=
  inferInstanceAs (Decidable (∀ e ∈ s.tables.entries, ∀ f ∈ e.2.relations.entries, '.' ∉ f.2.relatedColumn.toList))

theorem RelationsPlain.relatedColumn (hs : s.RelationsPlain) {table name : String} {t : Table}
    (ht : s.table table = .ok t) (hr : t.relations.get? name = some r) : '.' ∉ r.relatedColumn.toList := by
  obtain ⟨before, rest, htables, -⟩ := List.lookup_eq_some_iff.mp (table_eq_ok.mp ht)
  obtain ⟨before', rest', hrelations, -⟩ := List.lookup_eq_some_iff.mp hr
  exact hs (table, t) (by simp [htables]) (name, r) (by simp [hrelations])

theorem project_scoped (hplain : sc.Plain) (row : Row) :
    (Tuple.ofRow r.relatedTable row).project (scopedQuery r key sc) = row.only sc.shown := by
  have hcolumns : ∀ c ∈ sc.shown, '.' ∉ c.toList := by
    cases hfields : sc.fields with
    | none => simp [Scope.shown, hfields]
    | some columns => simpa [Scope.shown, hfields] using hplain.fields columns hfields
  by_cases hnone : sc.shown = []
  · have hstar : (scopedQuery r key sc).columns = ["*"] := if_pos hnone
    rw [Tuple.project_ofRow (by simp [hstar]) (by simp [hstar]), hstar, hnone]
    rfl
  · have hshown : (scopedQuery r key sc).columns = sc.shown := if_neg hnone
    rw [Tuple.project_ofRow (hshown ▸ hnone) (hshown ▸ hcolumns), hshown]

theorem relatedValue_eq_gather (kind : RelationKind) (rows : List Row) : relatedValue kind rows = kind.gather rows := by
  cases kind <;> cases rows <;> rfl

theorem loadNode_eq_ok {table name : String} {parent : Row} {children : List LoadNode} {value : Json}
    (h : s.loadNode table parent (.node name scope children) = .ok value) :
    ∃ t r, s.table table = .ok t ∧ t.relations.get? name = some r ∧
      (parent.cell r.parentColumn = .null ∧ value = r.kind.gather [] ∨
        parent.cell r.parentColumn ≠ .null ∧ ∃ tuples results,
          s.selectTuples (scopedQuery r (parent.cell r.parentColumn) (scope.getD {})) = .ok tuples ∧
          List.Forall₂ (fun u result => s.loadNodes r.relatedTable (u.tableColumns r.relatedTable) children
            (u.project (scopedQuery r (parent.cell r.parentColumn) (scope.getD {}))) = .ok result) tuples results ∧
          value = r.kind.gather results) := by
  rw [loadNode] at h
  obtain ⟨t, ht, h⟩ := Outcome.bind_eq_ok.mp h
  cases hr : t.relations.get? name with
  | none => simp [hr] at h
  | some r =>
      refine ⟨t, r, ht, hr, ?_⟩
      have hcell : parentKey r parent = parent.cell r.parentColumn := rfl
      simp only [hr, hcell, relatedValue_eq_gather, relatedQuery_eq] at h
      by_cases hkey : parent.cell r.parentColumn = .null
      · rw [if_pos (Json.isNull_iff.mpr hkey)] at h
        exact .inl ⟨hkey, (Except.ok.inj h).symm⟩
      · rw [if_neg (mt Json.isNull_iff.mp hkey)] at h
        obtain ⟨tuples, htuples, h⟩ := Outcome.bind_eq_ok.mp h
        obtain ⟨results, hresults, h⟩ := Outcome.bind_eq_ok.mp h
        exact .inr ⟨hkey, tuples, results, htuples, Outcome.mapM_eq_ok.mp hresults, (Except.ok.inj h).symm⟩

/-- Loading writes no column but those that the nodes are named for. -/
theorem get?_of_loadNodes {table : String} {parent before after : Row} {nodes : List LoadNode} {column : String}
    (h : s.loadNodes table parent nodes before = .ok after) (hcolumn : column ∉ names nodes) :
    after.get? column = before.get? column := by
  induction nodes generalizing before with
  | nil =>
      rw [loadNodes] at h
      rw [Except.ok.inj h]
  | cons n rest ih =>
      obtain ⟨hne, hrest⟩ := not_or.mp (mt List.mem_cons.mpr hcolumn)
      rw [loadNodes] at h
      obtain ⟨value, -, h⟩ := Outcome.bind_eq_ok.mp h
      rw [ih h hrest, Dict.get?_insert_of_ne before value hne]

-- The recursion is that of the loading itself: from a node to its children for every row chosen, and along siblings.
mutual

theorem attached_of_loadNode (hs : s.RelationsPlain) : (n : LoadNode) → n.Sound → ∀ {table : String} {parent : Row}
    {value : Json}, s.loadNode table parent n = .ok value → s.Attached table parent n value
  | .node name scope children, hn, table, parent, value, h => by
      obtain ⟨hscope, hnames, hchildren⟩ := hn
      obtain ⟨t, r, ht, hr, hnull | ⟨hkey, tuples, results, htuples, hresults, hvalue⟩⟩ := loadNode_eq_ok h
      · exact ⟨t, r, ht, hr, .inl hnull⟩
      · have hplain : (scope.getD {}).Plain := by
          cases scope with
          | none => exact ⟨by simp, by simp, by simp⟩
          | some sc => exact hscope sc rfl
        have hgiven := Bool.eq_false_iff.mpr (mt Json.isNull_iff.mp hkey)
        obtain ⟨u, chosen, hu, hchosen, rfl⟩ := selectTuples_scoped (hs.relatedColumn ht hr) hplain hgiven htuples
        refine ⟨t, r, ht, hr, .inr ⟨hkey, u, chosen, results, hu, hchosen, ?_, hvalue⟩⟩
        refine (List.forall₂_map_left_iff.mp hresults).imp fun row result hrow => ?_
        rw [Tuple.tableColumns_ofRow, project_scoped hplain] at hrow
        exact allAttached_of_loadNodes hs children hnames hchildren hrow

theorem allAttached_of_loadNodes (hs : s.RelationsPlain) : (nodes : List LoadNode) → (names nodes).Nodup →
    LoadNode.AllSound nodes → ∀ {table : String} {parent before after : Row},
    s.loadNodes table parent nodes before = .ok after → s.AllAttached table parent nodes after ∧
      ∀ column, column ∉ names nodes → after.get? column = before.get? column
  | [], _, _, table, parent, before, after, h => by
      exact ⟨trivial, fun _ => get?_of_loadNodes h⟩
  | n :: rest, hnames, hsound, table, parent, before, after, h => by
      obtain ⟨hnew, hnames⟩ := List.nodup_cons.mp hnames
      obtain ⟨hn, hsound⟩ := hsound
      refine ⟨?_, fun _ => get?_of_loadNodes h⟩
      rw [loadNodes] at h
      obtain ⟨value, hvalue, hrest⟩ := Outcome.bind_eq_ok.mp h
      obtain ⟨hattached, -⟩ := allAttached_of_loadNodes hs rest hnames hsound hrest
      have hown : after.get? n.name = some value := by
        rw [get?_of_loadNodes hrest hnew]
        exact Dict.get?_insert_self before n.name value
      exact ⟨⟨value, hown, attached_of_loadNode hs n hn hvalue⟩, hattached⟩

end

/-- Each row of a result has, for every node of the tree of loads and as deep as the tree goes, the related rows of
the base row that it is made from, whatever the query joins and shows; its other columns are the shown ones. -/
theorem get_attaches_related (s : Store) {q : Query} (hq : q.JoinsApart) (hs : s.RelationsPlain)
    (hloads : ∀ l ∈ q.loads, l.scope.Plain) {rows : List Row} (h : s.get q = .ok rows) :
    ∃ base traced, s.table q.table = .ok base ∧ s.trace q = .ok traced ∧
      List.Forall₂ (fun e row => ∃ parent, base.rows[e.1]? = some parent ∧
        (∀ n ∈ LoadNode.ofLoads q.loads, ∃ value, row.get? n.name = some value ∧ s.Attached q.table parent n value) ∧
        ∀ column, column ∉ names (LoadNode.ofLoads q.loads) → row.get? column = (e.2.project q).get? column)
        traced rows := by
  obtain ⟨tuples, htuples, hrows⟩ := Outcome.bind_eq_ok.mp h
  obtain ⟨traced, htraced, rfl⟩ := exists_trace htuples
  obtain ⟨base, hbase⟩ := table_of_trace htraced
  obtain ⟨hnames, hsound⟩ := LoadNode.ofLoads_sound hloads
  refine ⟨base, traced, hbase, htraced, ?_⟩
  have hloaded := List.forall₂_map_left_iff.mp (Outcome.mapM_eq_ok.mp hrows)
  have hbehind : ∀ e ∈ traced, ∃ parent, base.rows[e.1]? = some parent ∧ e.2.Carries q.table parent :=
    fun e he => carries_of_trace hq hbase htraced he
  refine ((List.forall₂_and_left _ _).mpr ⟨hbehind, hloaded⟩).imp fun e row hrow => ?_
  obtain ⟨⟨parent, hparent, hcarries⟩, hload⟩ := hrow
  rw [hcarries.tableColumns] at hload
  obtain ⟨hattached, hkept⟩ := allAttached_of_loadNodes hs _ hnames hsound hload
  exact ⟨parent, hparent, allAttached_iff.mp hattached, hkept⟩

/-- Two people, of whom one has no number, and the books and covers of the other. -/
def library : Store where
  tables := .ofList [
    ("people", {
      primaryKey := "id"
      rows := [.ofList [("id", .ofInt64 1), ("name", .string "ann")], .ofList [("name", .string "bob")]]
      relations := .ofList [("books", .hasMany "books" "author" "id")] }),
    ("books", {
      primaryKey := "id"
      rows := [
        .ofList [("id", .ofInt64 1), ("author", .ofInt64 1), ("year", .ofInt64 2001)],
        .ofList [("id", .ofInt64 2), ("author", .string "1"), ("year", .ofInt64 1999)]]
      relations := .ofList [("cover", .hasOne "covers" "book" "id")] }),
    ("covers", {
      primaryKey := "id"
      rows := [.ofList [("id", .ofInt64 7), ("book", .ofInt64 2)]] })]

/-- The people, each with the first book by year, and its cover. -/
def reading : Query where
  table := "people"
  loads := [
    ⟨"books", { fields := some ["year"], order := some ⟨"year", .ascending⟩, limit := some 1 }⟩,
    ⟨"books.cover", {}⟩]

theorem exists_get_reading : ∃ rows, library.get reading = .ok rows ∧ rows.length = 2 := by
  have hcheck : (library.get reading).toOption.any (fun rows => rows.length = 2) = true := by decide +kernel
  obtain ⟨rows, hget, htwo⟩ := Outcome.toOption_any.mp hcheck
  exact ⟨rows, hget, of_decide_eq_true htwo⟩

theorem get_attaches_related_library :
    ∃ rows base traced, library.get reading = .ok rows ∧ rows.length = 2 ∧
      library.table "people" = .ok base ∧ library.trace reading = .ok traced ∧
      List.Forall₂ (fun e row => ∃ parent, base.rows[e.1]? = some parent ∧
        ∀ n ∈ LoadNode.ofLoads reading.loads, ∃ value, row.get? n.name = some value ∧
          library.Attached "people" parent n value) traced rows := by
  obtain ⟨rows, hget, hlength⟩ := exists_get_reading
  have hplain : ∀ l ∈ reading.loads, l.scope.Plain := by decide
  have hapart : reading.JoinsApart := ⟨by decide, List.forall_mem_nil _⟩
  have hrelations : library.RelationsPlain := by decide
  obtain ⟨base, traced, hbase, htraced, hrows⟩ := get_attaches_related library hapart hrelations hplain hget
  refine ⟨rows, base, traced, hget, hlength, hbase, htraced, hrows.imp ?_⟩
  rintro e row ⟨parent, hparent, hattached, -⟩
  exact ⟨parent, hparent, hattached⟩

end Store

end RowQuery
