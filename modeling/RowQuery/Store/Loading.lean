import RowQuery.Store.LoadTree
import RowQuery.Store.Selection

namespace RowQuery

namespace Store

def relatedQuery (r : Relation) (key : Json) (scope : Option Scope) : Query :=
  let q := ({ table := r.relatedTable } : Query).whereEqual r.relatedColumn key
  match scope with
  | some scope => scope.apply q
  | none => q

def parentKey (r : Relation) (parent : Row) : Json := (parent.get? r.parentColumn).getD .null

/-- Related rows as one value: all of them, or the first one, or null if there is none. -/
def relatedValue (kind : RelationKind) (rows : List Row) : Json :=
  match kind with
  | .many => .array (rows.map .ofRow)
  | .one => (rows.head?.map Json.ofRow).getD .null

mutual

/-- The related rows of one parent under one name, each with its own related rows. The keys are those of
the parent's own table, whatever the query returns of it. -/
def loadNode (s : Store) (table : String) (parent : Row) : LoadNode → Except StoreError Json
  | .node name scope children => do
    let t ← s.table table
    match t.relations.get? name with
    | none => .error (.relationNotFound table name)
    | some r =>
      let key := parentKey r parent
      if key.isNull then .ok (relatedValue r.kind [])
      else do
        let q := relatedQuery r key scope
        let tuples ← s.selectTuples q
        let rows ← tuples.mapM fun u =>
          loadNodes s r.relatedTable (u.tableColumns r.relatedTable) children (u.project q)
        .ok (relatedValue r.kind rows)
termination_by structural n => n

/-- Adds the related rows of one parent to a row, under the name of each relation. -/
def loadNodes (s : Store) (table : String) (parent : Row) : List LoadNode → Row → Except StoreError Row
  | [], row => .ok row
  | n :: rest, row => do
    let a ← loadNode s table parent n
    loadNodes s table parent rest (row.insert n.name a)
termination_by structural nodes => nodes

end

def materialize (s : Store) (q : Query) (tuples : List Tuple) : Except StoreError (List Row) :=
  tuples.mapM fun t => s.loadNodes q.table (t.tableColumns q.table) (LoadNode.ofLoads q.loads) (t.project q)

end Store

end RowQuery
