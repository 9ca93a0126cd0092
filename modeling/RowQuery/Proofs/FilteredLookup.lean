import RowQuery.Proofs.AddedColumns
import RowQuery.Proofs.Compilation
import RowQuery.Proofs.ComparisonLaws
import RowQuery.Proofs.Deletion
import RowQuery.Proofs.KeyedLookup

namespace RowQuery

/-- If a single item can pass the second of two tests, the first one decides whether it is found. -/
theorem find?_and_of_countP_le_one {α : Type} {p q : α → Bool} {l : List α} (h : l.countP q ≤ 1) {a : α} (ha : a ∈ l)
    (hqa : q a = true) : (l.find? fun b => p b && q b) = if p a then some a else none := by
  by_cases hpa : p a = true
  · rw [if_pos hpa]
    cases hfound : l.find? fun b => p b && q b with
    | none => exact absurd (Bool.and_eq_true_iff.mpr ⟨hpa, hqa⟩) (List.find?_eq_none.mp hfound a ha)
    | some b =>
        have hboth := List.find?_some hfound
        rw [eq_of_countP_le_one h (List.mem_of_find?_eq_some hfound) ha (Bool.and_eq_true_iff.mp hboth).2 hqa]
  · rw [if_neg hpa]
    refine List.find?_eq_none.mpr fun b hb hboth => hpa ?_
    obtain ⟨hpb, hqb⟩ := Bool.and_eq_true_iff.mp hboth
    exact eq_of_countP_le_one h hb ha hqb hqa ▸ hpb

namespace Predicate

/-- Whether the operator of a predicate is one of the words for operators, but for blanks around it and case. -/
def Supported (p : Predicate) : Prop := Operator.normalized p.operator ∈ Operator.words

instance (p : Predicate) : Decidable p.Supported := inferInstanceAs (Decidable (_ ∈ _))

theorem meets_of_supported {p : Predicate} (h : p.Supported) (t : Tuple) :
    t.meets (.ofPredicate p) = .ok (passes (·.meets (.ofPredicate p)) t) := by
  have hmeets : t.meets (.ofPredicate p) = Operator.evaluate p.operator (t.resolve p.column) p.value := rfl
  cases hrun : Operator.evaluate p.operator (t.resolve p.column) p.value with
  | error e => exact absurd h (Operator.evaluate_error.mp ⟨e, hrun⟩)
  | ok b => simp only [passes, hmeets, hrun]

end Predicate

namespace Descriptor

variable {d : Descriptor}

/-- The predicates that all have to hold, without those that are marked as absent. -/
def conjuncts (d : Descriptor) : List Predicate := (d.whereAll.getD []).filter Predicate.isActive

/-- Whether a row of a table satisfies by itself the predicates that all have to hold. -/
def admits (d : Descriptor) (table : String) (row : Row) : Bool :=
  d.conjuncts.all fun p => passes (·.meets (.ofPredicate p)) (Tuple.ofRow table row)

theorem meetsAll_conjuncts (h : ∀ p ∈ d.conjuncts, p.Supported) (table : String) (row : Row) :
    (Tuple.ofRow table row).meetsAll (Stage.whereAll.clauses d) = .ok (d.admits table row) := by
  have hgroup : (Query.activeConditions (d.whereAll.getD [])).allM (Tuple.ofRow table row).meets =
      .ok (d.admits table row) := by
    have hmeets : ∀ c ∈ Query.activeConditions (d.whereAll.getD []), (Tuple.ofRow table row).meets c =
        .ok (passes (·.meets c) (Tuple.ofRow table row)) := by
      intro c hc
      obtain ⟨p, hp, rfl⟩ := List.mem_map.mp hc
      exact Predicate.meets_of_supported (h p hp) _
    rw [Outcome.allM_of_ok hmeets, Query.activeConditions, List.all_map, Function.comp_def, admits, conjuncts]
  have hclause : (Tuple.ofRow table row).meetsClause ⟨.and, Query.activeConditions (d.whereAll.getD [])⟩ =
      .ok (d.admits table row) := by
    rw [← hgroup]
    cases Query.activeConditions (d.whereAll.getD []) <;> rfl
  rw [Stage.clauses, Stage.group]
  split
  · rename_i hnone
    rw [admits, conjuncts, hnone]
    rfl
  · rw [Tuple.meetsAll, List.allM_cons, hclause]
    cases d.admits table row <;> rfl

end Descriptor

namespace Query

theorem select_eq (q : Query) (columns : List String) :
    q.select columns = { q with columns := if columns = [] then q.columns else columns } := by
  rw [select]
  split <;> rfl

theorem compileStages_keyed (q : Query) (d : Descriptor) :
    q.compileStages d Stage.keyed = { q with
      loads := q.loads ++ Stage.relations.loads d
      clauses := q.clauses ++ Stage.whereAll.clauses d } := by
  have hstages : Stage.ordered Stage.keyed = [.relations, .whereAll] := by decide
  rw [compileStages_eq, hstages]
  simp [Stage.loads, Stage.joined, Stage.clauses, Stage.orders, Stage.limited]

end Query

namespace Store

variable {s : Store} {q : Query} {t : Table}

/-- The first row that a query of one table gives, if its conditions come to a test of the row. -/
theorem first_of_test (hjoins : q.joins = []) (horders : q.orders = []) (hall : q.pagination = none)
    (ht : s.table q.table = .ok t) {test : Row → Bool}
    (htest : ∀ row, (Tuple.ofRow q.table row).meetsAll q.clauses = .ok (test row)) :
    s.first q = match t.rows.find? test with
      | some row => (s.addedColumns q.table q.loads row).map fun added =>
          some (((Tuple.ofRow q.table row).project q).merge added)
      | none => .ok none := by
  have hpasses : (fun row => passes (·.meetsAll q.clauses) (Tuple.ofRow q.table row)) = test := by
    funext row
    rw [passes, htest row]
  have hwindow : (q.limit 1).pagination = some { limit := some 1 } := by
    rw [Query.limit, hall]
    rfl
  have htuples : s.selectTuples (q.limit 1) = .ok (((t.rows.filter test).map (Tuple.ofRow q.table)).take 1) := by
    refine (selectTuples_of_plain (q := q.limit 1) hjoins ht).mpr ⟨fun row _ => ⟨_, htest row⟩, ?_⟩
    rw [hwindow, paginated_limit]
    show _ = List.take _ (sortedBy (Tuple.order q.orders) (List.map _ (List.filter _ _)))
    rw [horders, sortedBy_nil, ← hpasses]
    rfl
  rw [first, get, htuples, ← List.head?_filter]
  cases t.rows.filter test with
  | nil => rfl
  | cons row rest =>
      rw [List.head?_cons]
      have hload : s.loadNodes q.table ((Tuple.ofRow q.table row).tableColumns q.table) (LoadNode.ofLoads q.loads)
          ((Tuple.ofRow q.table row).project q) =
          (s.addedColumns q.table q.loads row).map ((Tuple.ofRow q.table row).project q).merge := by
        rw [Tuple.tableColumns_ofRow]
        exact s.loadNodes_merge q.table row (LoadNode.ofLoads q.loads) ((Tuple.ofRow q.table row).project q) .empty
      show ([Tuple.ofRow q.table row].mapM (fun t => s.loadNodes q.table (t.tableColumns q.table)
          (LoadNode.ofLoads q.loads) (t.project q)) >>= fun rows => Except.ok rows.head?) =
        (s.addedColumns q.table q.loads row).map _
      rw [List.mapM_cons, hload]
      cases s.addedColumns q.table q.loads row <;> rfl

end Store

namespace Repository

variable {r : Repository} {s : Store} {t : Table} {id : Json} {d : Descriptor}

/-- What a repository shows of a row of its table in the given columns. -/
def shown (r : Repository) (columns : List String) (row : Row) : Row :=
  (Tuple.ofRow r.metadata.table row).project (r.query.select columns)

/-- What a repository shows of a row, with the relations that a descriptor asks for. -/
def shownWith (r : Repository) (s : Store) (d : Descriptor) (columns : List String) (row : Row) :
    Except RepositoryError Row :=
  match s.addedColumns r.metadata.table (Stage.relations.loads d) row with
  | .ok added => .ok ((r.shown columns row).merge added)
  | .error e => .error (.store e)

theorem shown_of_plain {columns : List String} (h : ∀ c ∈ columns, '.' ∉ c.toList) (row : Row) :
    r.shown columns row = row.only columns := by
  rw [shown]
  by_cases hnone : columns = []
  · have hall : ∀ c ∈ r.query.columns, '.' ∉ c.toList := List.forall_mem_singleton.mpr (by decide)
    rw [Query.select, if_pos hnone, Tuple.project_ofRow (List.cons_ne_nil _ _) hall, Row.only, Row.only,
      if_pos (.inr List.mem_cons_self), if_pos (.inl hnone)]
  · rw [Query.select, if_neg hnone]
    exact Tuple.project_ofRow hnone h r.metadata.table row

theorem shownWith_eq_ok {columns : List String} {row answer : Row} :
    r.shownWith s d columns row = .ok answer ↔
      ∃ added, s.addedColumns r.metadata.table (Stage.relations.loads d) row = .ok added ∧
        answer = (r.shown columns row).merge added := by
  rw [shownWith]
  cases s.addedColumns r.metadata.table (Stage.relations.loads d) row <;> simp [eq_comm]

/-- The query by which a repository looks a key up within a descriptor. -/
def lookup (r : Repository) (d : Descriptor) (id : Json) (columns : List String) : Query where
  table := r.metadata.table
  columns := (r.query.select columns).columns
  clauses := Stage.whereAll.clauses d ++ [.single (.compare r.metadata.primaryKey "=" id)]
  loads := Stage.relations.loads d

theorem findOneById_eq (ht : s.table r.metadata.table = .ok t) (hkey : t.primaryKey = r.metadata.primaryKey)
    (d : Descriptor) (id : Json) (columns : List String) :
    r.findOneById s id d columns = r.found id (s.first (r.lookup d id columns)) := by
  have htable : s.table ((r.query.compileStages d Stage.keyed).select columns).table = .ok t := by
    rw [Query.compileStages_keyed, Query.select_eq]
    exact ht
  rw [findOneById, Store.find_eq htable, Query.compileStages_keyed, Query.select_eq, hkey, lookup, Query.select_eq]
  rfl

theorem meetsAll_lookup (hsupported : ∀ p ∈ d.conjuncts, p.Supported) (hid : id.isNull = false)
    (columns : List String) (row : Row) :
    (Tuple.ofRow r.metadata.table row).meetsAll (r.lookup d id columns).clauses =
      .ok (d.admits r.metadata.table row && r.names id row) := by
  have hnamed := (Tuple.ofRow r.metadata.table row).meetsAll_equal r.metadata.primaryKey hid
  rw [lookup, Tuple.meetsAll, Outcome.allM_append_of_ok hnamed, ← Tuple.meetsAll,
    Descriptor.meetsAll_conjuncts hsupported]
  rfl

theorem project_lookup (columns : List String) (row : Row) :
    (Tuple.ofRow r.metadata.table row).project (r.lookup d id columns) = r.shown columns row := by
  rw [shown, lookup, Tuple.project, Tuple.project, Query.selectsAll, Query.selectsAll]

/-- The row that a lookup by key within a descriptor gives, whatever the keys of the table are. -/
theorem findOneById_admitted (ht : s.table r.metadata.table = .ok t) (hkey : t.primaryKey = r.metadata.primaryKey)
    (hsupported : ∀ p ∈ d.conjuncts, p.Supported) (hid : id.isNull = false) (columns : List String) :
    r.findOneById s id d columns =
      match t.rows.find? fun row => d.admits r.metadata.table row && r.names id row with
      | some row => r.shownWith s d columns row
      | none => .error (.notFound r.metadata.table id) := by
  have hfirst := Store.first_of_test (q := r.lookup d id columns) rfl rfl rfl ht
    (meetsAll_lookup hsupported hid columns)
  rw [findOneById_eq ht hkey, hfirst]
  cases t.rows.find? fun row => d.admits r.metadata.table row && r.names id row with
  | none => rfl
  | some row =>
      show r.found id ((s.addedColumns r.metadata.table (Stage.relations.loads d) row).map fun added =>
        some (((Tuple.ofRow r.metadata.table row).project (r.lookup d id columns)).merge added)) =
          r.shownWith s d columns row
      rw [project_lookup, shownWith]
      cases s.addedColumns r.metadata.table (Stage.relations.loads d) row <;> rfl

theorem findOneById_congr {other : Descriptor} (hrelations : other.relations = d.relations)
    (hwhere : other.whereAll = d.whereAll) (columns : List String) :
    r.findOneById s id other columns = r.findOneById s id d columns := by
  have hcompiled : r.query.compileStages other Stage.keyed = r.query.compileStages d Stage.keyed := by
    rw [Query.compileStages_keyed, Query.compileStages_keyed]
    simp only [Stage.loads, Stage.clauses, hrelations, hwhere]
  rw [findOneById, hcompiled, findOneById]

theorem shownWith_of_noRelations (columns : List String) (row : Row) :
    r.shownWith s { d with relations := none } columns row = .ok (r.shown columns row) :=
  shownWith_eq_ok.mpr ⟨.empty, rfl, rfl⟩

theorem relations_add_columns (ht : s.table r.metadata.table = .ok t) (hkey : t.primaryKey = r.metadata.primaryKey)
    (hsupported : ∀ p ∈ d.conjuncts, p.Supported) (hid : id.isNull = false) {columns : List String} {answer : Row}
    (h : r.findOneById s id d columns = .ok answer) :
    ∃ plain added, r.findOneById s id { d with relations := none } columns = .ok plain ∧
      answer = plain.merge added ∧
      ∀ column, added.contains column = true ↔ column ∈ (Stage.relations.loads d).map EagerLoad.column := by
  have hplain := findOneById_admitted (d := { d with relations := none }) ht hkey hsupported hid columns
  rw [findOneById_admitted ht hkey hsupported hid] at h
  cases hrow : t.rows.find? fun row => d.admits r.metadata.table row && r.names id row with
  | none => simp [hrow] at h
  | some row =>
      rw [hrow] at h
      obtain ⟨added, hadded, rfl⟩ := shownWith_eq_ok.mp h
      refine ⟨r.shown columns row, added, ?_, rfl, Store.contains_addedColumns hadded⟩
      rw [hplain]
      show (match t.rows.find? fun row => d.admits r.metadata.table row && r.names id row with
        | some row => r.shownWith s { d with relations := none } columns row
        | none => .error (.notFound r.metadata.table id)) = _
      rw [hrow]
      exact shownWith_of_noRelations columns row

/-- A lookup by key within a descriptor looks the row up and then tests it. It gives the row with an equal key as long
as that row satisfies by itself the predicates that all have to hold, and finds nothing otherwise. No other part of
the descriptor counts but its relations, which only add columns, or fail the lookup when they cannot be read. -/
theorem lookup_then_test (r : Repository) (s : Store) {t : Table} (ht : s.table r.metadata.table = .ok t)
    (hkey : t.primaryKey = r.metadata.primaryKey) (hplain : '.' ∉ r.metadata.primaryKey.toList) {d : Descriptor}
    (hsupported : ∀ p ∈ d.conjuncts, p.Supported) (id : Json) (hid : id.isNull = false)
    (hone : t.rows.countP (fun row => (row.cell r.metadata.primaryKey).equal id) ≤ 1) (columns : List String) :
    (∀ row ∈ t.rows, (row.cell r.metadata.primaryKey).equal id = true →
      r.findOneById s id d columns =
        if d.admits r.metadata.table row then r.shownWith s d columns row
        else .error (.notFound r.metadata.table id)) ∧
    ((∀ row ∈ t.rows, (row.cell r.metadata.primaryKey).equal id = false) →
      r.findOneById s id d columns = .error (.notFound r.metadata.table id)) ∧
    (∀ other : Descriptor, other.relations = d.relations → other.whereAll = d.whereAll →
      r.findOneById s id other columns = r.findOneById s id d columns) ∧
    (∀ answer, r.findOneById s id d columns = .ok answer → ∃ plain added,
      r.findOneById s id { d with relations := none } columns = .ok plain ∧ answer = plain.merge added ∧
        ∀ column, added.contains column = true ↔ column ∈ (Stage.relations.loads d).map EagerLoad.column) ∧
    ((∀ c ∈ columns, '.' ∉ c.toList) → ∀ row, r.shown columns row = row.only columns) := by
  have hnames : ∀ row, r.names id row = (row.cell r.metadata.primaryKey).equal id :=
    fun row => congrArg (Json.equal · id) (Tuple.resolve_ofRow hplain r.metadata.table row)
  have hlookup := findOneById_admitted ht hkey hsupported hid columns
  simp only [hnames] at hlookup
  refine ⟨fun row hrow hequal => ?_, fun hnone => ?_, fun other hrelations hwhere => ?_, fun answer h => ?_,
    fun hcolumns => shown_of_plain hcolumns⟩
  · rw [hlookup, find?_and_of_countP_le_one hone hrow hequal]
    cases d.admits r.metadata.table row <;> rfl
  · have hfound : t.rows.find? (fun row =>
        d.admits r.metadata.table row && (row.cell r.metadata.primaryKey).equal id) = none :=
      List.find?_eq_none.mpr fun row hrow => by simp [hnone row hrow]
    rw [hlookup, hfound]
  · exact findOneById_congr hrelations hwhere columns
  · exact relations_add_columns ht hkey hsupported hid h

def ann : Row := .ofList [("id", .ofInt64 1), ("name", .string "ann")]

def bob : Row := .ofList [("id", .ofInt64 2), ("name", .string "bob")]

/-- The two members of a library, of whom one has borrowed a book. -/
def memberTable : Table where
  primaryKey := "id"
  rows := [ann, bob]
  relations := .ofList [("loans", .hasMany "loans" "member" "id")]

def lending : Store where
  tables := .ofList [
    ("members", memberTable),
    ("loans", { primaryKey := "id", rows := [.ofList [("id", .ofInt64 5), ("member", .string "1")]] })]

def members : Repository where
  metadata := ⟨"members", "id"⟩

/-- A search that no member passes as a whole, for a name that begins with an a. -/
def borrower : Descriptor where
  relations := some [{ name := "loans" }]
  joins := some [⟨"loans", "loans.member", "=", "members.name"⟩]
  whereAll := some [⟨"name", "LIKE", .string "a%"⟩, ⟨"name", "?", .null⟩]
  whereAny := some [⟨"name", "=", .string "zoe"⟩]
  limit := some 1

theorem lookup_then_test_members :
    lending.table "members" = .ok memberTable ∧
    (∃ added : Row, members.findOneById lending (.string "1") borrower ["name"] =
        .ok ((ann.only ["name"]).merge added) ∧ added.contains "loans" = true) ∧
    members.findOneById lending (.ofInt64 2) borrower ["name"] = .error (.notFound "members" (.ofInt64 2)) := by
  have htable : lending.table "members" = .ok memberTable := rfl
  have hsupported : ∀ p ∈ borrower.conjuncts, p.Supported := by decide
  have hcolumns : ∀ c ∈ ["name"], '.' ∉ c.toList := by decide
  obtain ⟨hann, -, -, -, hshown⟩ := lookup_then_test members lending htable rfl (by decide) hsupported
    (.string "1") rfl (by decide) ["name"]
  obtain ⟨hbob, -⟩ := lookup_then_test members lending htable rfl (by decide) hsupported
    (.ofInt64 2) rfl (by decide) ["name"]
  have hadmits : borrower.admits members.metadata.table ann = true := by decide
  have hrefuses : ¬borrower.admits members.metadata.table bob = true := by decide
  have hloans : (lending.addedColumns "members" (Stage.relations.loads borrower) ann).toOption.any
      (·.contains "loans") = true := by decide
  obtain ⟨added, hadded, hloans⟩ := Outcome.toOption_any.mp hloans
  refine ⟨htable, ⟨added, ?_, hloans⟩, ?_⟩
  · rw [hann ann List.mem_cons_self (by decide), if_pos hadmits, ← hshown hcolumns]
    exact shownWith_eq_ok.mpr ⟨added, hadded, rfl⟩
  · rw [hbob bob (List.mem_cons_of_mem _ List.mem_cons_self) (by decide), if_neg hrefuses]
    rfl

end Repository

end RowQuery
