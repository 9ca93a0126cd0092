import RowQuery.Query.Stage

namespace RowQuery

namespace Query

theorem addRelations_eq (q : Query) (relations : List RelationSpec) :
    q.addRelations relations =
      { q with loads := q.loads ++ relations.map (fun r => ⟨r.name, .ofRelation r⟩) } := by
  induction relations generalizing q with
  | nil => simp [addRelations]
  | cons r rest ih =>
      refine (ih (q.load ⟨r.name, .ofRelation r⟩)).trans ?_
      simp [load]

theorem addJoins_eq (q : Query) (specs : List JoinSpec) :
    q.addJoins specs = { q with
      joins := q.joins ++ specs.map fun j => ⟨.inner, j.table, ⟨j.tableColumn, j.operator, j.sourceColumn⟩⟩ } := by
  induction specs generalizing q with
  | nil => simp [addJoins]
  | cons j rest ih =>
      refine (ih (q.join ⟨.inner, j.table, ⟨j.tableColumn, j.operator, j.sourceColumn⟩⟩)).trans ?_
      simp [join]

end Query

namespace Stage

def loads (d : Descriptor) : Stage → List EagerLoad
  | .relations => (d.relations.getD []).map fun r => ⟨r.name, .ofRelation r⟩
  | _ => []

def joined (d : Descriptor) : Stage → List Join
  | .joins => (d.joins.getD []).map fun j => ⟨.inner, j.table, ⟨j.tableColumn, j.operator, j.sourceColumn⟩⟩
  | _ => []

/-- A group of the active predicates, unless no predicates are given at all. -/
def group (logic : Logic) (ps : List Predicate) : List Clause :=
  if ps = [] then [] else [⟨logic, Query.activeConditions ps⟩]

def clauses (d : Descriptor) : Stage → List Clause
  | .whereIn => (d.whereIn.bind Membership.pair?).toList.map fun m => .single (.isIn m.1 m.2)
  | .whereNotIn => (d.whereNotIn.bind Membership.pair?).toList.map fun m => .single (.isNotIn m.1 m.2)
  | .whereAll => group .and (d.whereAll.getD [])
  | .whereAny => group .or (d.whereAny.getD [])
  | .between => d.between.toList.map fun r => .single (.ofRange r)
  | .whereDate => (d.whereDate.filter Predicate.isActive).toList.map fun p =>
      .single (.date p.column p.operator p.value)
  | .whereMonth => (d.whereMonth.filter Predicate.isActive).toList.map fun p =>
      .single (.month p.column p.operator p.value)
  | _ => []

def orders (d : Descriptor) : Stage → List Order
  | .order => d.order.toList
  | _ => []

/-- The part of the rows that is asked for after a stage, of which the limit alone changes it. -/
def limited (d : Descriptor) (p : Option Pagination) : Stage → Option Pagination
  | .limit => match d.limit.filter (· ≠ 0) with
    | some n => some { limit := some n, offset := p.bind Pagination.offset }
    | none => p
  | _ => p

theorem apply_eq (d : Descriptor) (q : Query) (stage : Stage) :
    apply d q stage = { q with
      loads := q.loads ++ stage.loads d
      joins := q.joins ++ stage.joined d
      clauses := q.clauses ++ stage.clauses d
      orders := q.orders ++ stage.orders d
      pagination := stage.limited d q.pagination } := by
  cases stage with
  | relations =>
      rcases h : d.relations with _ | _ | ⟨r, rest⟩ <;>
        simp [apply, addIfAny, h, Query.addRelations_eq, loads, joined, clauses, orders, limited]
  | joins =>
      rcases h : d.joins with _ | _ | ⟨j, rest⟩ <;>
        simp [apply, addIfAny, h, Query.addJoins_eq, loads, joined, clauses, orders, limited]
  | whereIn =>
      rcases h : d.whereIn with _ | (_ | _) <;>
        simp [apply, addIfGiven, h, Query.addWhereIn, Membership.pair?, Query.condition, Query.clause,
          loads, joined, clauses, orders, limited]
  | whereNotIn =>
      rcases h : d.whereNotIn with _ | (_ | _) <;>
        simp [apply, addIfGiven, h, Query.addWhereNotIn, Membership.pair?, Query.condition, Query.clause,
          loads, joined, clauses, orders, limited]
  | whereAll =>
      rcases h : d.whereAll with _ | _ | ⟨p, rest⟩ <;>
        simp [apply, addIfAny, h, Query.addWhereAll, Query.clause, group, loads, joined, clauses, orders, limited]
  | whereAny =>
      rcases h : d.whereAny with _ | _ | ⟨p, rest⟩ <;>
        simp [apply, addIfAny, h, Query.addWhereAny, Query.clause, group, loads, joined, clauses, orders, limited]
  | order =>
      cases h : d.order <;>
        simp [apply, addIfGiven, h, Query.orderBy, loads, joined, clauses, orders, limited]
  | between =>
      cases h : d.between <;>
        simp [apply, addIfGiven, h, Query.addBetween, Query.condition, Query.clause,
          loads, joined, clauses, orders, limited]
  | whereDate =>
      rcases h : d.whereDate with _ | p
      · simp [apply, addIfGiven, h, loads, joined, clauses, orders, limited]
      · cases hp : p.isActive <;>
          simp [apply, addIfGiven, h, hp, Option.filter_some, Query.addWhereDate, Query.condition, Query.clause,
            loads, joined, clauses, orders, limited]
  | whereMonth =>
      rcases h : d.whereMonth with _ | p
      · simp [apply, addIfGiven, h, loads, joined, clauses, orders, limited]
      · cases hp : p.isActive <;>
          simp [apply, addIfGiven, h, hp, Option.filter_some, Query.addWhereMonth, Query.condition, Query.clause,
            loads, joined, clauses, orders, limited]
  | limit =>
      rcases h : d.limit with _ | n
      · simp [apply, addIfGiven, h, loads, joined, clauses, orders, limited]
      · by_cases hn : n = 0 <;>
          simp [apply, addIfGiven, h, hn, Option.filter_some, Query.addLimit, Query.limit,
            loads, joined, clauses, orders, limited]

theorem foldl_apply (d : Descriptor) (stages : List Stage) (q : Query) :
    stages.foldl (apply d) q = { q with
      loads := q.loads ++ stages.flatMap (loads d)
      joins := q.joins ++ stages.flatMap (joined d)
      clauses := q.clauses ++ stages.flatMap (clauses d)
      orders := q.orders ++ stages.flatMap (orders d)
      pagination := stages.foldl (limited d) q.pagination } := by
  induction stages generalizing q with
  | nil => simp
  | cons stage rest ih => rw [List.foldl_cons, ih, apply_eq]; simp

/-- The stages of a list in the order of the pipeline, each of them once. -/
def ordered (stages : List Stage) : List Stage := pipeline.filter (stages.contains ·)

theorem ordered_subset {fewer more : List Stage} (h : fewer ⊆ more) : ordered fewer ⊆ ordered more := by
  intro stage hstage
  simp only [ordered, List.mem_filter, List.contains_iff_mem] at hstage ⊢
  exact ⟨hstage.1, h hstage.2⟩

/-- What a single stage adds is added once if the stage is among those given, and not at all if it is not. -/
theorem flatMap_ordered {α : Type} {add : Stage → List α} {only : Stage} (h : ∀ stage, stage ≠ only → add stage = [])
    (stages : List Stage) : (ordered stages).flatMap add = if only ∈ stages then add only else [] := by
  have hfilter : ∀ l : List Stage, (l.filter (stages.contains ·)).flatMap add =
      l.flatMap fun stage => if stage ∈ stages then add stage else [] := by
    intro l
    induction l with
    | nil => rfl
    | cons stage rest ih =>
        by_cases h : stage ∈ stages
        · rw [List.filter_cons_of_pos (List.contains_iff_mem.mpr h), List.flatMap_cons, ih]
          simp [h]
        · rw [List.filter_cons_of_neg (mt List.contains_iff_mem.mp h), ih]
          simp [h]
  rw [ordered, hfilter]
  cases only <;> simp [pipeline, h]

theorem flatMap_joined (d : Descriptor) (stages : List Stage) :
    (ordered stages).flatMap (joined d) = if .joins ∈ stages then joined d .joins else [] := by
  apply flatMap_ordered
  intro stage hstage
  cases stage <;> simp_all [joined]

theorem foldl_limited {d : Descriptor} {stages : List Stage} (h : .limit ∉ stages) (p : Option Pagination) :
    stages.foldl (limited d) p = p := by
  induction stages with
  | nil => rfl
  | cons stage rest ih =>
      obtain ⟨hstage, hrest⟩ : .limit ≠ stage ∧ .limit ∉ rest := by simpa using h
      have hlimited : stage.limited d p = p := by cases stage <;> simp_all [limited]
      rw [List.foldl_cons, hlimited, ih hrest]

theorem limit_not_mem_ordered {stages : List Stage} (h : .limit ∉ stages) : .limit ∉ ordered stages := by
  intro hmem
  exact h (List.contains_iff_mem.mp (List.mem_filter.mp hmem).2)

end Stage

namespace Query

theorem compileStages_eq (q : Query) (d : Descriptor) (stages : List Stage) :
    q.compileStages d stages = { q with
      loads := q.loads ++ (Stage.ordered stages).flatMap (Stage.loads d)
      joins := q.joins ++ (Stage.ordered stages).flatMap (Stage.joined d)
      clauses := q.clauses ++ (Stage.ordered stages).flatMap (Stage.clauses d)
      orders := q.orders ++ (Stage.ordered stages).flatMap (Stage.orders d)
      pagination := (Stage.ordered stages).foldl (Stage.limited d) q.pagination } :=
  Stage.foldl_apply d (Stage.ordered stages) q

theorem compileStages_table (q : Query) (d : Descriptor) (stages : List Stage) :
    (q.compileStages d stages).table = q.table := by
  rw [compileStages_eq]

theorem compileStages_joins (q : Query) (d : Descriptor) (stages : List Stage) :
    (q.compileStages d stages).joins = q.joins ++ if .joins ∈ stages then Stage.joined d .joins else [] := by
  rw [compileStages_eq, Stage.flatMap_joined]

theorem compileStages_clauses (q : Query) (d : Descriptor) (stages : List Stage) :
    (q.compileStages d stages).clauses = q.clauses ++ (Stage.ordered stages).flatMap (Stage.clauses d) := by
  rw [compileStages_eq]

theorem compileStages_pagination (q : Query) (d : Descriptor) {stages : List Stage} (h : .limit ∉ stages) :
    (q.compileStages d stages).pagination = q.pagination := by
  rw [compileStages_eq]
  exact Stage.foldl_limited (Stage.limit_not_mem_ordered h) q.pagination

end Query

end RowQuery
