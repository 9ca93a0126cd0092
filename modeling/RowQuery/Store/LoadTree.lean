import RowQuery.Query.Basic

namespace RowQuery

/-- The requests for related rows below one relation name. Paths with a common start share its nodes, and
a node has a scope if some path ends at it. -/
inductive LoadNode
  | node (name : String) (scope : Option Scope) (children : List LoadNode)

namespace LoadNode

def name : LoadNode → String
  | .node name _ _ => name

def scope : LoadNode → Option Scope
  | .node _ scope _ => scope

def children : LoadNode → List LoadNode
  | .node _ _ children => children

/-- Changes the node of a name, which is added at the end if there is none. -/
def update (name : String) (change : LoadNode → LoadNode) : List LoadNode → List LoadNode
  | [] => [change (.node name none [])]
  | n :: rest => if n.name = name then change n :: rest else n :: update name change rest

/-- Adds a path; of two scopes for one path the later counts. -/
def addPath (scope : Scope) : List String → List LoadNode → List LoadNode
  | [], nodes => nodes
  | [name], nodes => update name (fun n => .node n.name (some scope) n.children) nodes
  | name :: rest, nodes => update name (fun n => .node n.name n.scope (addPath scope rest n.children)) nodes

def ofLoads (loads : List EagerLoad) : List LoadNode :=
  loads.foldl (fun nodes l => addPath l.scope l.segments nodes) []

end LoadNode

end RowQuery
