import RowQuery.Proofs.Increment
import RowQuery.Proofs.Insertion
import RowQuery.Proofs.KeyColumn
import RowQuery.Proofs.KeyedWrites

namespace RowQuery

theorem changedWhere_perm (test : Row → Bool) (change : Row → Option Row) (rows : List Row) :
    (changedWhere test change rows).Perm
      ((rows.filter test).filterMap change ++ rows.filter fun row => !test row) := by
  have hpicked : (rows.filter test).filterMap (fun row => if test row then change row else some row) =
      (rows.filter test).filterMap change :=
    List.filterMap_congr fun row hrow => if_pos (List.mem_filter.mp hrow).2
  have hother : (rows.filter fun row => !test row).filterMap (fun row => if test row then change row else some row) =
      rows.filter fun row => !test row := by
    refine (List.filterMap_congr fun row hrow => ?_).trans List.filterMap_some
    have hfalse := (List.mem_filter.mp hrow).2
    exact if_neg (by simpa using hfalse)
  have hsplit := (List.filter_append_perm test rows).filterMap fun row => if test row then change row else some row
  rw [List.filterMap_append, hpicked, hother] at hsplit
  exact hsplit.symm

namespace Table

variable {t t' : Table} {name column : String} {amount : Int64} {data row stored : Row} {keys : List Json} {key : Json}
  {rows after : List Row}

section Keys

def withRows (t : Table) (rows : List Row) : Table := { t with rows }

/-- What the rows hold in the key column. -/
def keyCells (t : Table) (rows : List Row) : List Json := rows.filterMap (·.get? t.primaryKey)

theorem keyCells_eq (h : ∀ row ∈ rows, (t.keyOf? row).isSome) : t.keyCells rows = rows.filterMap t.keyOf? := by
  refine List.filterMap_congr fun row hrow => ?_
  obtain ⟨key, hkey⟩ := Option.isSome_iff_exists.mp (h row hrow)
  rw [hkey, (keyOf?_eq_some.mp hkey).1]

theorem keyed_withRows : (t.withRows rows).Keyed ↔
    (∀ row ∈ rows, ∃ key, row.get? t.primaryKey = some key ∧ key.isNull = false) ∧
      (t.keyCells rows).Pairwise fun a b => a.equal b = false := by
  have hpresent : (∀ row ∈ rows, ∃ key, row.get? t.primaryKey = some key ∧ key.isNull = false) ↔
      ∀ row ∈ rows, (t.keyOf? row).isSome := by
    simp only [Option.isSome_iff_exists, keyOf?_eq_some]
  rw [hpresent]
  constructor
  · intro h
    exact ⟨h.present, keyCells_eq h.present ▸ h.distinct⟩
  · rintro ⟨hkeys, hdistinct⟩
    exact ⟨hkeys, keyCells_eq hkeys ▸ hdistinct⟩

theorem keyed_of_cells (h : ∀ row ∈ rows, ∃ key, row.get? t.primaryKey = some key) : (t.withRows rows).Keyed ↔
    (∀ key ∈ t.keyCells rows, key.isNull = false) ∧ (t.keyCells rows).Pairwise fun a b => a.equal b = false := by
  rw [keyed_withRows]
  refine and_congr_left fun _ => ?_
  constructor
  · intro hpresent key hkey
    obtain ⟨row, hrow, hget⟩ := List.mem_filterMap.mp hkey
    obtain ⟨other, hother, hnull⟩ := hpresent row hrow
    exact Option.some.inj (hother.symm.trans hget) ▸ hnull
  · intro hnull row hrow
    obtain ⟨key, hget⟩ := h row hrow
    exact ⟨key, hget, hnull key (List.mem_filterMap.mpr ⟨row, hrow, hget⟩)⟩

theorem keyed_of_rows (hkey : t'.primaryKey = t.primaryKey) (hrows : t'.rows = rows) :
    t'.Keyed ↔ (t.withRows rows).Keyed := by
  have hcolumn : t'.keyColumn = (t.withRows rows).keyColumn := by
    rw [keyColumn, keyOf?_congr hkey, hrows]
    rfl
  exact ⟨fun h => h.of_keyColumn hcolumn.symm, fun h => h.of_keyColumn hcolumn⟩

theorem hasKey_withRows (key : Json) :
    (t.withRows rows).hasKey key = false ↔ ∀ other ∈ t.keyCells rows, key.equal other = false := by
  have hany : (t.withRows rows).hasKey key = (t.keyCells rows).any (·.equal key) := List.any_filterMap.symm
  rw [hany, List.any_eq_false]
  refine forall₂_congr fun other _ => ?_
  rw [Bool.not_eq_true, Json.equal_comm]

theorem keyed_perm (h : rows.Perm after) : (t.withRows rows).Keyed ↔ (t.withRows after).Keyed := by
  have hcells : (t.keyCells rows).Perm (t.keyCells after) := h.filterMap _
  have hdistinct := hcells.pairwise_iff fun {a b} (hne : a.equal b = false) => by rwa [Json.equal_comm]
  rw [keyed_withRows, keyed_withRows, hdistinct]
  exact and_congr_left fun _ => forall_congr' fun row => by rw [h.mem_iff]

/-- Rows stand beside others if both have their keys in order and share none. -/
theorem keyed_append {before : List Row} : (t.withRows (before ++ rows)).Keyed ↔
    (t.withRows before).Keyed ∧ (t.withRows rows).Keyed ∧
      ∀ key ∈ t.keyCells before, (t.withRows rows).hasKey key = false := by
  simp only [keyed_withRows, hasKey_withRows, keyCells, List.forall_mem_append, List.filterMap_append,
    List.pairwise_append]
  constructor
  · rintro ⟨⟨hbefore, hrows⟩, hb, hr, happart⟩
    exact ⟨⟨hbefore, hb⟩, ⟨hrows, hr⟩, happart⟩
  · rintro ⟨⟨hbefore, hb⟩, ⟨hrows, hr⟩, happart⟩
    exact ⟨⟨hbefore, hrows⟩, hb, hr, happart⟩

/-- A key that a further row of a table may have. -/
def Free (t : Table) (key : Json) : Prop := key.isNull = false ∧ t.hasKey key = false

instance (t : Table) (key : Json) : Decidable (t.Free key) := inferInstanceAs (Decidable (_ ∧ _))

theorem keyed_cons : (t.withRows (row :: rows)).Keyed ↔
    (t.withRows rows).Keyed ∧ ∃ key, row.get? t.primaryKey = some key ∧ (t.withRows rows).Free key := by
  rw [← List.singleton_append, keyed_append, keyed_withRows, List.forall_mem_singleton]
  constructor
  · rintro ⟨⟨⟨key, hget, hnull⟩, -⟩, hrows, hnew⟩
    exact ⟨hrows, key, hget, hnull, hnew key (by simp [keyCells, hget])⟩
  · rintro ⟨hrows, key, hget, hnull, hnew⟩
    have hcells : t.keyCells [row] = [key] := by simp [keyCells, hget]
    rw [hcells, List.forall_mem_singleton]
    exact ⟨⟨⟨key, hget, hnull⟩, List.pairwise_singleton _ _⟩, hrows, hnew⟩

theorem Keyed.without (h : t.Keyed) (test : Row → Bool) : (t.without test).Keyed where
  present row hrow := h.present row (List.mem_filter.mp hrow).1
  distinct := h.distinct.sublist (List.filter_sublist.filterMap t.keyOf?)

/-- Rows that pass a test may be changed if they fit together then, and with the others. -/
theorem Keyed.changedWhere (h : t.Keyed) (test : Row → Bool) (change : Row → Option Row) :
    (t.withRows (changedWhere test change t.rows)).Keyed ↔
      (t.withRows ((t.rows.filter test).filterMap change)).Keyed ∧
        ∀ key ∈ t.keyCells ((t.rows.filter test).filterMap change), (t.without test).hasKey key = false := by
  rw [keyed_perm (changedWhere_perm test change t.rows), keyed_append]
  have hrest : (t.withRows (t.rows.filter fun row => !test row)).Keyed := h.without test
  exact and_congr_right fun _ => and_iff_right hrest

end Keys

section Update

/-- Data that names a key reaches no row, or a single one, and its key is free beside the other rows. -/
def AdmitsUpdate (t : Table) (keys : List Json) (data : Row) : Prop :=
  ∀ key, data.get? t.primaryKey = some key → t.rows.countP (t.keyIsAmong keys) = 0 ∨
    t.rows.countP (t.keyIsAmong keys) = 1 ∧ (t.without (t.keyIsAmong keys)).Free key

theorem get?_merge_of_some (h : data.get? t.primaryKey = some key) (row : Row) :
    (row.merge data).get? t.primaryKey = some key := by
  rw [Dict.get?_merge, h, Option.some_or]

/-- Of the rows that are given one key there can only be one. -/
theorem keyed_merged (h : data.get? t.primaryKey = some key) {rows others : List Row}
    (hothers : (t.withRows others).Keyed) : (t.withRows (rows.map (·.merge data) ++ others)).Keyed ↔
      rows.length = 0 ∨ rows.length = 1 ∧ (t.withRows others).Free key := by
  match rows with
  | [] => simpa using hothers
  | [row] =>
      simp only [List.map_cons, List.map_nil, List.singleton_append, keyed_cons, get?_merge_of_some h]
      simp [hothers]
  | first :: second :: rest =>
      simp only [List.map_cons, List.cons_append, keyed_cons, get?_merge_of_some h, Option.some.injEq, exists_eq_left',
        List.length_cons]
      constructor
      · rintro ⟨-, hnull, hnew⟩
        have hequal := (hasKey_withRows key).mp hnew key (by simp [keyCells, get?_merge_of_some h])
        rw [Json.equal_self hnull] at hequal
        cases hequal
      · omega

theorem keyed_update (hkeyed : t.Keyed) (keys : List Json) (data : Row) :
    (t.update keys data).2.Keyed ↔ t.AdmitsUpdate keys data := by
  cases hdata : data.get? t.primaryKey with
  | none =>
      have hcolumn := keyColumn_update hdata keys
      simp [AdmitsUpdate, hdata, hkeyed.of_keyColumn hcolumn]
  | some key =>
      have hothers : (t.withRows (t.rows.filter fun row => !t.keyIsAmong keys row)).Keyed := hkeyed.without _
      have hperm := changedWhere_perm (t.keyIsAmong keys) (fun row => some (row.merge data)) t.rows
      rw [List.filterMap_eq_map'] at hperm
      have hupdate : (t.update keys data).2.Keyed ↔
          (t.withRows (changedWhere (t.keyIsAmong keys) (fun row => some (row.merge data)) t.rows)).Keyed := by
        rw [update_eq]
        exact keyed_of_rows rfl rfl
      rw [hupdate, keyed_perm hperm, keyed_merged hdata hothers, AdmitsUpdate, hdata, List.countP_eq_length_filter]
      simp only [Option.some.injEq, forall_eq']
      rfl

end Update

section Increment

/-- The sums that an increment writes into the key column. -/
def raisedKeys (t : Table) (name : String) (keys : List Json) (amount : Int64) : List Json :=
  (t.rows.filter (t.keyIsAmong keys)).filterMap fun row =>
    (incremented name t.primaryKey (row.get? t.primaryKey) amount).toOption

/-- The sums that an increment writes into the key column are free beside the other rows, and no two are equal. -/
def AdmitsIncrement (t : Table) (name : String) (keys : List Json) (column : String) (amount : Int64) : Prop :=
  column = t.primaryKey → ((t.raisedKeys name keys amount).Pairwise fun a b => a.equal b = false) ∧
    ∀ key ∈ t.raisedKeys name keys amount, (t.without (t.keyIsAmong keys)).Free key

theorem get?_raised (row : Row) : ((raised? name column amount row).bind fun raised => raised.get? column) =
    (incremented name column (row.get? column) amount).toOption := by
  rw [raised?]
  cases incremented name column (row.get? column) amount with
  | error e => rfl
  | ok a => exact Dict.get?_insert_self ..

theorem keyCells_raised (keys : List Json) :
    t.keyCells ((t.rows.filter (t.keyIsAmong keys)).filterMap (raised? name t.primaryKey amount)) =
      t.raisedKeys name keys amount := by
  rw [keyCells, List.filterMap_filterMap]
  exact List.filterMap_congr fun row _ => get?_raised row

theorem keyed_increment (hkeyed : t.Keyed) {n : Nat} (h : (t.increment name keys column amount).1 = .ok n) :
    (t.increment name keys column amount).2.Keyed ↔ t.AdmitsIncrement name keys column amount := by
  by_cases hcolumn : column = t.primaryKey
  · subst hcolumn
    obtain ⟨-, -, hafter⟩ := increment_eq_ok.mp (Prod.ext h rfl)
    have hkeys : (t.increment name keys t.primaryKey amount).2.Keyed ↔
        (t.withRows (changedWhere (t.keyIsAmong keys) (raised? name t.primaryKey amount) t.rows)).Keyed :=
      keyed_of_rows rfl (congrArg Table.rows hafter)
    have hpresent : ∀ row ∈ (t.rows.filter (t.keyIsAmong keys)).filterMap (raised? name t.primaryKey amount),
        ∃ key, row.get? t.primaryKey = some key := by
      intro stored hstored
      obtain ⟨row, -, hraised⟩ := List.mem_filterMap.mp hstored
      obtain ⟨a, -, rfl⟩ := Option.map_eq_some_iff.mp hraised
      exact ⟨a, Dict.get?_insert_self ..⟩
    rw [hkeys, hkeyed.changedWhere, keyed_of_cells hpresent, keyCells_raised, AdmitsIncrement]
    simp only [Free, forall_and, forall_const, and_assoc, and_left_comm]
  · have hkept := hkeyed.of_keyColumn (keyColumn_increment hcolumn name keys amount)
    exact iff_of_true hkept fun heq => absurd heq hcolumn

end Increment

section Upsert

theorem keyed_insert (hkeyed : t.Keyed) (h : t.insert name row = .ok (stored, t')) :
    t'.Keyed ↔ (t.keyOf? row = none → t.hasKey (.ofInt64 t.nextKey) = false) := by
  obtain ⟨hkey, hrows⟩ := insert_appends h
  have hperm : (t.rows ++ [stored]).Perm (stored :: t.rows) := List.perm_append_singleton ..
  rw [keyed_of_rows hkey hrows, keyed_perm hperm, keyed_cons]
  refine (and_iff_right hkeyed).trans ?_
  rcases insert_eq_ok.mp h with ⟨key, hgiven, hnew, rfl, -⟩ | ⟨hnone, rfl, -⟩
  · obtain ⟨hget, hnull⟩ := keyOf?_eq_some.mp hgiven
    refine iff_of_true ⟨key, hget, hnull, hnew⟩ fun hnone => ?_
    rw [hgiven] at hnone
    cases hnone
  · rw [Dict.get?_insert_self]
    constructor
    · rintro ⟨key, hget, -, hnew⟩ -
      exact Option.some.inj hget ▸ hnew
    · exact fun hnew => ⟨_, rfl, rfl, hnew hnone⟩

/-- The key of the values is free beside the other rows, if there is a row to write them over; else the next key is free,
if it is needed. -/
def AdmitsUpsert (t : Table) (attributes values : Row) : Prop :=
  if t.rows.any (hasValues attributes) then
    ∀ key, values.get? t.primaryKey = some key → (t.withRows (t.rows.eraseP (hasValues attributes))).Free key
  else t.keyOf? (attributes.merge values) = none → t.hasKey (.ofInt64 t.nextKey) = false

theorem updateOrCreate_cases {attributes values : Row} (h : t.updateOrCreate name attributes values = .ok (stored, t')) :
    (∃ before old rest, t.rows = before ++ old :: rest ∧ (∀ row ∈ before, hasValues attributes row = false) ∧
      hasValues attributes old = true ∧ stored = old.merge values ∧ t' = t.withRows (before ++ stored :: rest)) ∨
    (∀ row ∈ t.rows, hasValues attributes row = false) ∧ t.insert name (attributes.merge values) = .ok (stored, t') := by
  unfold updateOrCreate at h
  cases hfirst : updateFirst attributes values t.rows with
  | none =>
      rw [hfirst] at h
      exact .inr ⟨updateFirst_eq_none.mp hfirst, h⟩
  | some c =>
      obtain ⟨found, rows⟩ := c
      rw [hfirst] at h
      obtain ⟨rfl, rfl⟩ := Prod.mk.inj (Except.ok.inj h)
      obtain ⟨before, old, rest, hrows, hbefore, hold, rfl, rfl⟩ := updateFirst_eq_some hfirst
      exact .inl ⟨before, old, rest, hrows, hbefore, hold, rfl, rfl⟩

theorem keyed_updateOrCreate (hkeyed : t.Keyed) {attributes values : Row}
    (h : t.updateOrCreate name attributes values = .ok (stored, t')) : t'.Keyed ↔ t.AdmitsUpsert attributes values := by
  unfold AdmitsUpsert
  rcases updateOrCreate_cases h with ⟨before, old, rest, hrows, hbefore, hold, rfl, rfl⟩ | ⟨hnone, hinsert⟩
  · have hany : t.rows.any (hasValues attributes) = true := by simp [hrows, hold]
    have hothers : t.rows.eraseP (hasValues attributes) = before ++ rest := by
      rw [hrows, List.eraseP_append_right _ (by simpa using hbefore), List.eraseP_cons_of_pos hold]
    have hsplit : ∀ row, (t.withRows (before ++ row :: rest)).Keyed ↔ (t.withRows (before ++ rest)).Keyed ∧
        ∃ key, row.get? t.primaryKey = some key ∧ (t.withRows (before ++ rest)).Free key :=
      fun row => (keyed_perm List.perm_middle).trans keyed_cons
    have htable : t = t.withRows (before ++ old :: rest) := by rw [withRows, ← hrows]
    obtain ⟨hrest, key, hkey, hfree⟩ := (hsplit old).mp (htable ▸ hkeyed)
    rw [if_pos hany, hothers, hsplit]
    refine (and_iff_right hrest).trans ?_
    rw [Dict.get?_merge, hkey]
    cases values.get? t.primaryKey with
    | none => simp [hfree]
    | some given => simp
  · have hany : t.rows.any (hasValues attributes) = false := by simpa using hnone
    rw [if_neg (by simp [hany])]
    exact keyed_insert hkeyed hinsert

end Upsert

end Table

namespace Repository

variable {r : Repository} {s after : Store} {id : Json} {data row answer : Row}

theorem update_of_write (h : r.write s id data row = (.ok answer, after)) :
    ∃ n, s.update (r.byKey id) data = (.ok n, after) := by
  unfold write at h
  obtain ⟨⟨count, after'⟩, hupdate⟩ : ∃ c, s.update (r.byKey id) data = c := ⟨_, rfl⟩
  rw [hupdate] at h ⊢
  cases count with
  | error e => cases (Prod.mk.inj h).1
  | ok n =>
      obtain ⟨-, rfl⟩ := Prod.mk.inj h
      exact ⟨n, rfl⟩

theorem write_of_updateById (h : r.updateById s id data = (.ok answer, after)) :
    ∃ row, r.write s id data row = (.ok answer, after) := by
  unfold updateById at h
  cases hfound : r.findById s id [] with
  | error e =>
      rw [hfound] at h
      cases (Prod.mk.inj h).1
  | ok row =>
      rw [hfound] at h
      exact ⟨_, h⟩

end Repository

/-- The calls that write data over the rows of a query. -/
inductive Rewrites (s after : Store) : Query → Row → Prop
  | query {q : Query} {data : Row} {n : Nat} (h : s.update q data = (.ok n, after)) : Rewrites s after q data
  | key {r : Repository} {id : Json} {data : Row} {n : Nat} (h : r.update s id data = (.ok n, after)) :
      Rewrites s after (r.byKey id) data
  | column {r : Repository} {column : String} {value : Json} {data : Row} {n : Nat}
      (h : r.updateBy s column value data = (.ok n, after)) : Rewrites s after (r.query.whereEqual column value) data
  | row {r : Repository} {id : Json} {data answer : Row} (h : r.updateById s id data = (.ok answer, after)) :
      Rewrites s after (r.byKey id) data
  | field {r : Repository} {id next : Json} {field : String} {value : Option Json} {row answer : Row}
      (hnext : r.fieldUpdate s id field value = .ok (row, next))
      (h : r.updateByField s id field value = (.ok answer, after)) :
      Rewrites s after (r.byKey id) (Dict.empty.insert field next)

/-- The calls that write values over a row with some attributes, or add one. -/
inductive Upserts (s after : Store) : String → Row → Row → Prop
  | store {name : String} {attributes values row : Row} (h : s.updateOrCreate name attributes values = (.ok row, after)) :
      Upserts s after name attributes values
  | repository {r : Repository} {attributes values row : Row}
      (h : r.updateOrCreate s attributes values = (.ok row, after)) : Upserts s after r.metadata.table attributes values
  | key {r : Repository} {id : Json} {data row : Row} (h : r.updateOrCreateData s id data = (.ok row, after)) :
      Upserts s after r.metadata.table (Dict.empty.insert r.metadata.primaryKey id) data

theorem Rewrites.update {s after : Store} {q : Query} {data : Row} (h : Rewrites s after q data) :
    ∃ n, s.update q data = (.ok n, after) := by
  cases h with
  | query h => exact ⟨_, h⟩
  | key h => exact ⟨_, h⟩
  | column h => exact ⟨_, h⟩
  | row h =>
      obtain ⟨row, hwrite⟩ := Repository.write_of_updateById h
      exact Repository.update_of_write hwrite
  | field hnext h =>
      obtain ⟨next', row', hnext', hwrite⟩ := Repository.updateByField_eq_write.mp h
      obtain ⟨-, rfl⟩ := Prod.mk.inj (Except.ok.inj (hnext.symm.trans hnext'))
      exact Repository.update_of_write hwrite

theorem Upserts.updateOrCreate {s after : Store} {name : String} {attributes values : Row}
    (h : Upserts s after name attributes values) : ∃ row, s.updateOrCreate name attributes values = (.ok row, after) := by
  cases h with
  | store h => exact ⟨_, h⟩
  | repository h => exact ⟨_, h⟩
  | key h => exact ⟨_, h⟩

namespace Store

variable {s after : Store} {q : Query} {name : String} {t : Table} {α : Type} {a : α}

theorem changeMatched_eq_ok {change : Table → List Json → Except StoreError α × Table}
    (ht : s.table q.table = .ok t) (h : s.changeMatched q change = (.ok a, after)) :
    ∃ keys, s.matchedKeys q = .ok keys ∧ (change t keys).1 = .ok a ∧ after = s.putTable q.table (change t keys).2 := by
  rcases changeMatched_eq.mp h with ⟨_, -, hok, -⟩ | ⟨t', keys, u, ht', hkeys, hchange, rfl⟩
  · cases hok
  · obtain rfl := Except.ok.inj (ht'.symm.trans ht)
    refine ⟨keys, hkeys, ?_, ?_⟩
    · rw [hchange]
    · rw [hchange]

theorem tryTable_eq_ok {change : Table → Except StoreError (α × Table)} (ht : s.table name = .ok t)
    (h : s.tryTable name change = (.ok a, after)) : ∃ t', change t = .ok (a, t') ∧ after = s.putTable name t' := by
  cases hchange : change t with
  | error e =>
      rw [tryTable_of_error ht hchange] at h
      cases (Prod.mk.inj h).1
  | ok c =>
      obtain ⟨b, t'⟩ := c
      rw [tryTable_of_ok ht hchange] at h
      obtain ⟨hanswer, rfl⟩ := Prod.mk.inj h
      exact ⟨t', by rw [Except.ok.inj hanswer], rfl⟩

/-- Only insertions look at the keys that are there. Data that is written over the rows of a query leaves the keys in order
exactly if it names no key, or reaches no row, or one row alone with a key that is free; an increment, if the sums that it
writes into the key column are free and no two of them equal; and an upsert, if the key that it writes over a row is free,
or the next key, where it hands that one out, is equal to none. -/
theorem keys_after_writes (s after : Store) {name : String} {t : Table} (ht : s.table name = .ok t) (hkeyed : t.Keyed) :
    (∀ q data, q.table = name → Rewrites s after q data → ∃ keys, s.matchedKeys q = .ok keys ∧
      after = s.putTable name (t.update keys data).2 ∧ ((t.update keys data).2.Keyed ↔ t.AdmitsUpdate keys data)) ∧
    (∀ q column amount n, q.table = name → s.increment q column amount = (.ok n, after) →
      ∃ keys, s.matchedKeys q = .ok keys ∧ after = s.putTable name (t.increment name keys column amount).2 ∧
        ((t.increment name keys column amount).2.Keyed ↔ t.AdmitsIncrement name keys column amount)) ∧
    ∀ attributes values, Upserts s after name attributes values → ∃ row t',
      t.updateOrCreate name attributes values = .ok (row, t') ∧ after = s.putTable name t' ∧
        (t'.Keyed ↔ t.AdmitsUpsert attributes values) := by
  refine ⟨?_, ?_, ?_⟩
  · rintro q data rfl hwrite
    obtain ⟨n, hupdate⟩ := hwrite.update
    obtain ⟨keys, hkeys, -, rfl⟩ := changeMatched_eq_ok ht hupdate
    exact ⟨keys, hkeys, rfl, Table.keyed_update hkeyed keys data⟩
  · rintro q column amount n rfl hincrement
    obtain ⟨keys, hkeys, hcount, rfl⟩ := changeMatched_eq_ok ht hincrement
    exact ⟨keys, hkeys, rfl, Table.keyed_increment hkeyed hcount⟩
  · intro attributes values hwrite
    obtain ⟨row, hupsert⟩ := hwrite.updateOrCreate
    obtain ⟨t', hrow, rfl⟩ := tryTable_eq_ok ht hupsert
    exact ⟨row, t', hrow, rfl, Table.keyed_updateOrCreate hkeyed hrow⟩

def seatTable : Table where
  primaryKey := "id"
  rows := [.ofList [("id", .ofInt64 1)], .ofList [("id", .ofInt64 2)]]
  nextKey := 3

/-- A store with two seats. -/
def seating : Store where
  tables := .ofList [("seats", seatTable)]

def firstSeat : Query := ({ table := "seats" } : Query).whereEqual "id" (.ofInt64 1)

def numbered (id : Int64) : Row := .ofList [("id", .ofInt64 id)]

theorem update_firstSeat (id : Int64) :
    seating.update firstSeat (numbered id) = (.ok 1, (seating.update firstSeat (numbered id)).2) := rfl

theorem keys_after_writes_seats : seating.table "seats" = .ok seatTable ∧ seatTable.Keyed ∧
    ∃ after t', seating.update firstSeat (numbered 3) = (.ok 1, after) ∧ after.table "seats" = .ok t' ∧ t'.Keyed := by
  have hkeyed : seatTable.Keyed := by decide
  obtain ⟨keys, hkeys, hafter, hkept⟩ := (keys_after_writes seating _ rfl hkeyed).1 firstSeat (numbered 3) rfl
    (.query (update_firstSeat 3))
  have hmatched : (seating.matchedKeys firstSeat).toOption = some [.ofInt64 1] := by decide
  rw [hkeys] at hmatched
  obtain rfl := Option.some.inj hmatched
  have hadmits : seatTable.AdmitsUpdate [.ofInt64 1] (numbered 3) := by
    intro key hkey
    obtain rfl : Json.ofInt64 3 = key := Option.some.inj hkey
    exact .inr (by decide)
  exact ⟨rfl, hkeyed, _, _, update_firstSeat 3, hafter ▸ table_putTable .., hkept.mpr hadmits⟩

/-- A seat can be given the number of another one. -/
theorem updates_can_repeat_keys :
    ¬∀ (s after : Store) (q : Query) (data : Row) (n : Nat) (t t' : Table), s.table q.table = .ok t → t.Keyed →
      s.update q data = (.ok n, after) → after.table q.table = .ok t' → t'.Keyed := by
  intro hkept
  have hkeyed : seatTable.Keyed := by decide
  have hcheck : ((seating.update firstSeat (numbered 2)).2.table "seats").toOption.any
      (fun t => decide ¬t.Keyed) = true := by
    decide
  obtain ⟨t', ht', hrepeat⟩ := Outcome.toOption_any.mp hcheck
  have hnext := hkept seating _ firstSeat (numbered 2) 1 seatTable t' rfl hkeyed (update_firstSeat 2) ht'
  exact of_decide_eq_true hrepeat hnext

end Store

end RowQuery
