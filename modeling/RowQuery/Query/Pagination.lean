namespace RowQuery

structure Pagination where
  limit : Option UInt64 := none
  offset : Option UInt64 := none
deriving DecidableEq

namespace Pagination

/-- The page of a number, counted from 1; page 0 has no offset. -/
def ofPage (page perPage : UInt64) : Pagination where
  limit := some perPage
  offset := if 0 < page then some ((page - 1) * perPage) else none

def ofLimit (limit : UInt64) : Pagination where
  limit := some limit

/-- The number of pages that `total` rows take, at least one. -/
def totalPages (p : Pagination) (total : Nat) : Nat :=
  match p.limit with
  | some limit => if limit = 0 then 1 else max 1 ((total + limit.toNat - 1) / limit.toNat)
  | none => 1

/-- Where the part starts and ends in a list of `length` rows. -/
def bounds (p : Pagination) (length : Nat) : Nat × Nat :=
  let start := min ((p.offset.map UInt64.toNat).getD 0) length
  match p.limit with
  | some limit => (start, min (start + limit.toNat) length)
  | none => (start, length)

def slice {α : Type} (p : Pagination) (rows : List α) : List α :=
  let (start, stop) := p.bounds rows.length
  (rows.drop start).take (stop - start)

end Pagination

end RowQuery
