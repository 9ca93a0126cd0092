import RowQuery.Proofs.SingleTable
import RowQuery.Repository.Basic
import Mathlib.Algebra.Group.Nat.Defs
import Mathlib.Data.List.Nodup

namespace RowQuery

/-- Rows under whole numbers in the order in which they came, and the number for the next row that comes without
one. -/
structure Ledger where
  entries : List (Int × Row)
  next : Int
  distinct : (entries.map Prod.fst).Nodup
  below : ∀ k ∈ entries.map Prod.fst, k < next

namespace Ledger

def keys (l : Ledger) : List Int := l.entries.map Prod.fst

def rows (l : Ledger) : List Row := l.entries.map Prod.snd

def get? (l : Ledger) (k : Int) : Option Row := l.entries.lookup k

def start (next : Int) : Ledger := ⟨[], next, .nil, List.forall_mem_nil _⟩

theorem next_not_mem (l : Ledger) : l.next ∉ l.keys := fun h => Int.lt_irrefl _ (l.below l.next h)

/-- Adds a row at the end. The next number is greater than all that have been in use. -/
def add (l : Ledger) (k : Int) (row : Row) (h : k ∉ l.keys) : Ledger where
  entries := l.entries ++ [(k, row)]
  next := max l.next (k + 1)
  distinct := by
    rw [List.map_append]
    refine List.Nodup.append l.distinct (List.nodup_singleton k) ?_
    exact List.disjoint_singleton.mpr h
  below := by
    intro k' hk'
    rw [List.map_append] at hk'
    rcases List.mem_append.mp hk' with hold | hlast
    · have hlt := l.below k' hold
      omega
    · have heq : k' = k := List.mem_singleton.mp hlast
      omega

theorem map_fst_adjust (entries : List (Int × Row)) (k : Int) (change : Row → Row) :
    (entries.map fun e => if e.1 = k then (k, change e.2) else e).map Prod.fst = entries.map Prod.fst := by
  rw [List.map_map]
  refine List.map_congr_left fun e _ => ?_
  by_cases he : e.1 = k <;> simp [he]

/-- Changes the row of a number, if there is one. -/
def adjust (l : Ledger) (k : Int) (change : Row → Row) : Ledger where
  entries := l.entries.map fun e => if e.1 = k then (k, change e.2) else e
  next := l.next
  distinct := by rw [map_fst_adjust]; exact l.distinct
  below := by rw [map_fst_adjust]; exact l.below

def erase (l : Ledger) (ks : List Int) : Ledger where
  entries := l.entries.filter fun e => e.1 ∉ ks
  next := l.next
  distinct := l.distinct.sublist (List.filter_sublist.map Prod.fst)
  below := fun k hk => l.below k ((List.filter_sublist.map Prod.fst).subset hk)

/-- The value that stands for a number in the key column. -/
def keyValue (k : Int) : Json := .ofInt64 (.ofInt k)

/-- Adds a row under the whole number in its key column, or under the next number if it has none. A number that
is in use is refused. -/
def insert (m : Metadata) (l : Ledger) (row : Row) : Except StoreError (Row × Ledger) :=
  match row.get? m.primaryKey with
  | some (.number (.integer i)) =>
    if h : i.val ∈ l.keys then .error (.duplicateKey m.table (.number (.integer i)))
    else .ok (row, l.add i.val row h)
  | _ =>
    let stored := row.insert m.primaryKey (keyValue l.next)
    .ok (stored, l.add l.next stored l.next_not_mem)

/-- The key that a row comes with is a whole number below `2 ^ 53` in magnitude, as is the next one if it comes
without a key. -/
def Takes (m : Metadata) (l : Ledger) (row : Row) : Prop :=
  match row.get? m.primaryKey with
  | none | some .null => l.next.natAbs < 2 ^ 53
  | some (.number (.integer i)) => i.val.natAbs < 2 ^ 53
  | some _ => False

instance (m : Metadata) (l : Ledger) (row : Row) : Decidable (l.Takes m row) := by
  unfold Takes
  split <;> infer_instance

end Ledger

/-- A call of a repository that reads or writes rows by their keys. -/
inductive KeyedCall
  | create (row : Row)
  | insertGetId (row : Row)
  | find (key : Integer)
  | findById (key : Integer) (columns : List String)
  | valueById (key : Integer) (column : String)
  | update (key : Integer) (data : Row)
  | updateById (key : Integer) (data : Row)
  | increment (key : Integer) (column : String) (amount : Int64)
  | delete (key : Integer)
  | deleteAll (keys : List Integer)
  | countAll

inductive Reply
  | row (row : Row)
  | found (row : Option Row)
  | value (value : Option Json)
  | key (key : Json)
  | count (n : Nat)
deriving DecidableEq

abbrev Answer := Except RepositoryError Reply

def Answer.ofStore {α : Type} (reply : α → Reply) (x : Except StoreError α) : Answer := (x.map reply).mapError .store

def Integer.json (i : Integer) : Json := .number (.integer i)

namespace KeyedCall

@[simp]
def run (r : Repository) (s : Store) : KeyedCall → Answer × Store
  | create row => let (x, s) := r.create s row; (.ofStore .row x, s)
  | insertGetId row => let (x, s) := r.insertGetId s row; (.ofStore .key x, s)
  | find key => (.ofStore .found (r.find s key.json), s)
  | findById key columns => ((r.findById s key.json columns).map .row, s)
  | valueById key column => (.ofStore .value (r.valueById s key.json column), s)
  | update key data => let (x, s) := r.update s key.json data; (.ofStore .count x, s)
  | updateById key data => let (x, s) := r.updateById s key.json data; (x.map .row, s)
  | increment key column amount => let (x, s) := r.increment s key.json column amount; (.ofStore .count x, s)
  | delete key => let (x, s) := r.delete s key.json; (x.map .count, s)
  | deleteAll keys => let (x, s) := r.delete s (.array (keys.map Integer.json)); (x.map .count, s)
  | countAll => (.ofStore .count (r.countBy s []), s)

/-- The answers to some calls in turn, each with the rows of the table after it. -/
def runAll (r : Repository) (s : Store) : List KeyedCall → List (Answer × Except StoreError (List Row))
  | [] => []
  | c :: rest => ((c.run r s).1, (c.run r s).2.rows r.metadata.table) :: runAll r (c.run r s).2 rest

/-- Rows come with keys that the ledger takes, the key column is not written to, and the columns that are asked
for have no point in their names. -/
def Admissible (m : Metadata) (l : Ledger) : KeyedCall → Prop
  | create row | insertGetId row => l.Takes m row
  | findById _ columns => ∀ c ∈ columns, '.' ∉ c.toList
  | valueById _ column => '.' ∉ column.toList
  | update _ data | updateById _ data => data.get? m.primaryKey = none
  | increment _ column _ => column ≠ m.primaryKey
  | find _ | delete _ | deleteAll _ | countAll => True

instance (m : Metadata) (l : Ledger) : (c : KeyedCall) → Decidable (c.Admissible m l)
  | create row | insertGetId row => inferInstanceAs (Decidable (l.Takes m row))
  | findById _ columns => inferInstanceAs (Decidable (∀ c ∈ columns, '.' ∉ c.toList))
  | valueById _ column => inferInstanceAs (Decidable ('.' ∉ column.toList))
  | update _ data | updateById _ data => inferInstanceAs (Decidable (data.get? m.primaryKey = none))
  | increment _ column _ => inferInstanceAs (Decidable (column ≠ m.primaryKey))
  | find _ | delete _ | deleteAll _ | countAll => .isTrue trivial

end KeyedCall

namespace Ledger

def missing (m : Metadata) (key : Integer) : Answer := .error (.notFound m.table key.json)

/-- What a call answers, and the rows after it. -/
@[simp]
def step (m : Metadata) (l : Ledger) : KeyedCall → Answer × Ledger
  | .create row =>
    match l.insert m row with
    | .ok (stored, l) => (.ok (.row stored), l)
    | .error e => (.error (.store e), l)
  | .insertGetId row =>
    match l.insert m row with
    | .ok (stored, l) => (.ok (.key (stored.cell m.primaryKey)), l)
    | .error e => (.error (.store e), l)
  | .find key => (.ok (.found (l.get? key.val)), l)
  | .findById key columns =>
    match l.get? key.val with
    | some row => (.ok (.row (row.only columns)), l)
    | none => (missing m key, l)
  | .valueById key column => (.ok (.value ((l.get? key.val).map (·.cell column))), l)
  | .update key data => (.ok (.count (l.keys.count key.val)), l.adjust key.val (·.merge data))
  | .updateById key data =>
    match l.get? key.val with
    | some row => (.ok (.row (row.merge data)), l.adjust key.val (·.merge data))
    | none => (missing m key, l)
  | .increment key column amount =>
    match l.get? key.val with
    | some row =>
      match Table.incremented m.table column (row.get? column) amount with
      | .ok a => (.ok (.count 1), l.adjust key.val (·.insert column a))
      | .error e => (.error (.store e), l)
    | none => (.ok (.count 0), l)
  | .delete key =>
    match l.get? key.val with
    | some _ => (.ok (.count 1), l.erase [key.val])
    | none => (missing m key, l)
  | .deleteAll keys =>
    (.ok (.count (l.keys.countP (· ∈ keys.map Integer.val))), l.erase (keys.map Integer.val))
  | .countAll => (.ok (.count l.keys.length), l)

def stepAll (m : Metadata) (l : Ledger) : List KeyedCall → List (Answer × List Row)
  | [] => []
  | c :: rest => ((l.step m c).1, (l.step m c).2.rows) :: stepAll m (l.step m c).2 rest

/-- Every call is admissible when its turn comes. -/
def Admits (m : Metadata) (l : Ledger) : List KeyedCall → Prop
  | [] => True
  | c :: rest => c.Admissible m l ∧ Admits m (l.step m c).2 rest

def decideAdmits (m : Metadata) : (l : Ledger) → (calls : List KeyedCall) → Decidable (l.Admits m calls)
  | _, [] => .isTrue trivial
  | l, c :: rest => @instDecidableAnd _ _ inferInstance (decideAdmits m (l.step m c).2 rest)

instance (m : Metadata) (l : Ledger) (calls : List KeyedCall) : Decidable (l.Admits m calls) := decideAdmits m l calls

end Ledger

end RowQuery
