import RowQuery.Proofs.AssignedKeys
import RowQuery.Proofs.LedgerRefinement

namespace RowQuery

/-- The table of a repository holds a ledger. -/
structure Repository.Mirrors (r : Repository) (s : Store) (t : Table) (l : Ledger) : Prop where
  table : s.table r.metadata.table = .ok t
  primaryKey : t.primaryKey = r.metadata.primaryKey
  plain : '.' ∉ r.metadata.primaryKey.toList
  holds : t.Holds l

namespace Repository.Mirrors

variable {r : Repository} {s : Store} {t t' : Table} {l l' : Ledger}

theorem putTable (h : r.Mirrors s t l) (hholds : t'.Holds l') (hkey : t'.primaryKey = t.primaryKey) :
    r.Mirrors (s.putTable r.metadata.table t') t' l' where
  table := Store.table_putTable s _ t'
  primaryKey := hkey.trans h.primaryKey
  plain := h.plain
  holds := hholds

theorem selectTuples (h : r.Mirrors s t l) {q : Query} {i : Integer} (htable : q.table = r.metadata.table)
    (hjoins : q.joins = []) (hclauses : q.clauses = [.single (.compare r.metadata.primaryKey "=" i.json)])
    (horders : q.orders = []) :
    s.selectTuples q =
      .ok (Store.paginated q.pagination ((l.get? i.val).toList.map (Tuple.ofRow r.metadata.table))) := by
  have hrows := h.holds.filter_rows i
  rw [h.primaryKey] at hrows
  rw [Store.selectTuples_equal hjoins hclauses horders (htable ▸ h.table) h.plain rfl, hrows, htable]

theorem paginated_toList {α : Type} (o : Option α) :
    Store.paginated (some { limit := some 1, offset := none }) o.toList = o.toList := by
  cases o <;> rfl

theorem first (h : r.Mirrors s t l) {q : Query} {i : Integer} (htable : q.table = r.metadata.table)
    (hjoins : q.joins = []) (hclauses : q.clauses = [.single (.compare r.metadata.primaryKey "=" i.json)])
    (horders : q.orders = []) (hpagination : q.pagination = none) (hloads : q.loads = []) (hne : q.columns ≠ [])
    (hcolumns : ∀ c ∈ q.columns, '.' ∉ c.toList) :
    s.first q = .ok ((l.get? i.val).map (·.only q.columns)) := by
  have htuples : s.selectTuples (q.limit 1) = .ok ((l.get? i.val).toList.map (Tuple.ofRow r.metadata.table)) := by
    rw [h.selectTuples (q := q.limit 1) htable hjoins hclauses horders]
    simp only [Query.limit, hpagination, Option.bind_none]
    rw [← Store.map_paginated, paginated_toList]
  have hproject := Tuple.project_ofRow (q := q.limit 1) hne hcolumns r.metadata.table
  rw [Store.first, Store.get_of_noLoads s (q := q.limit 1) hloads, htuples]
  cases l.get? i.val with
  | none => rfl
  | some row => exact congrArg (fun shown => Except.ok (some shown)) (hproject row)

theorem find_select (h : r.Mirrors s t l) {columns : List String} (hcolumns : ∀ c ∈ columns, '.' ∉ c.toList)
    (i : Integer) : s.find (r.query.select columns) i.json = .ok ((l.get? i.val).map (·.only columns)) := by
  have hfind : s.find (r.query.select columns) i.json =
      s.first ((r.query.select columns).whereEqual r.metadata.primaryKey i.json) := by
    have htable : (r.query.select columns).table = r.metadata.table := by
      unfold Query.select
      split <;> rfl
    rw [Store.find_eq (htable ▸ h.table), h.primaryKey]
  rw [hfind]
  by_cases hnone : columns = []
  · have hselect : r.query.select columns = r.query := if_pos hnone
    have hfirst := h.first (q := r.query.whereEqual r.metadata.primaryKey i.json) (i := i) rfl rfl rfl rfl rfl rfl
      (List.cons_ne_nil _ _)
      (List.forall_mem_singleton.mpr (by decide))
    rw [hselect, hfirst, hnone]
    rfl
  · have hselect : r.query.select columns = { r.query with columns } := if_neg hnone
    rw [hselect]
    exact h.first rfl rfl rfl rfl rfl rfl hnone hcolumns

theorem find (h : r.Mirrors s t l) (i : Integer) : r.find s i.json = .ok (l.get? i.val) := by
  have hfind : s.find (r.query.select []) i.json = .ok ((l.get? i.val).map (·.only [])) :=
    h.find_select (List.forall_mem_nil _) i
  have honly : (fun row : Row => row.only []) = id := rfl
  rwa [honly, Option.map_id] at hfind

theorem findById (h : r.Mirrors s t l) {columns : List String} (hcolumns : ∀ c ∈ columns, '.' ∉ c.toList)
    (i : Integer) :
    r.findById s i.json columns =
      match l.get? i.val with
      | some row => .ok (row.only columns)
      | none => .error (.notFound r.metadata.table i.json) := by
  rw [Repository.findById, h.find_select hcolumns]
  cases l.get? i.val <;> rfl

theorem valueById (h : r.Mirrors s t l) {column : String} (hcolumn : '.' ∉ column.toList) (i : Integer) :
    r.valueById s i.json column = .ok ((l.get? i.val).map (·.cell column)) := by
  have htuples := h.selectTuples (q := (r.byKey i.json).limit 1) (i := i) rfl rfl rfl rfl
  have hlimit : ((r.byKey i.json).limit 1).pagination = some { limit := some 1, offset := none } := rfl
  rw [hlimit, ← Store.map_paginated, paginated_toList] at htuples
  rw [Repository.valueById, Store.value, htuples]
  cases l.get? i.val with
  | none => rfl
  | some row => exact congrArg (fun value => Except.ok (some value)) (Tuple.resolve_ofRow hcolumn _ row)

theorem countAll (h : r.Mirrors s t l) : r.countBy s [] = .ok l.keys.length := by
  have hselect : s.selectTuples r.query.forCount = .ok (t.rows.map (Tuple.ofRow r.metadata.table)) := by
    rw [Store.selectTuples_of_plain (q := r.query.forCount) rfl h.table]
    refine ⟨fun _ _ => ⟨true, rfl⟩, ?_⟩
    show _ = sortedBy (Tuple.order []) ((t.rows.filter fun _ => true).map (Tuple.ofRow r.metadata.table))
    rw [List.filter_true, Store.sortedBy_nil]
  have hcount : r.countBy s [] = s.count r.query := rfl
  rw [hcount, Store.count, hselect, h.holds.rows, Ledger.rows, Ledger.keys]
  exact congrArg Except.ok (by simp)

/-- A query by key picks the row of that key. -/
theorem matchedKeys (h : r.Mirrors s t l) (i : Integer) :
    ∃ keys, s.matchedKeys (r.byKey i.json) = .ok keys ∧ t.Picks l keys i.val := by
  have htuples := h.selectTuples (q := r.byKey i.json) (i := i) rfl rfl rfl rfl
  refine ⟨_, Store.matchedKeys_ofRow h.table htuples, fun e he => ?_⟩
  cases hget : l.get? i.val with
  | none =>
      have hne : e.1 ≠ i.val := Ledger.ne_of_get? hget he
      rw [decide_eq_false hne, Table.keyIsAmong, (h.holds.keyed e he).1]
      rfl
  | some row =>
      have hrow : row.cell t.primaryKey = i.json := by
        obtain ⟨hkey, hsmall⟩ := h.holds.keyed _ (Ledger.mem_of_get? hget)
        rw [Row.cell, hkey, Option.getD_some, Ledger.keyValue_val hsmall]
      have hone := h.holds.keyIsAmong he [i]
      simpa [hrow] using hone

theorem changeMatched {α : Type} (h : r.Mirrors s t l) (i : Integer)
    (change : Table → List Json → Except StoreError α × Table) :
    ∃ keys, t.Picks l keys i.val ∧ s.changeMatched (r.byKey i.json) change =
      ((change t keys).1, s.putTable r.metadata.table (change t keys).2) := by
  obtain ⟨keys, hkeys, hpicks⟩ := h.matchedKeys i
  exact ⟨keys, hpicks, Store.changeMatched_of_keys h.table hkeys change⟩

theorem update (h : r.Mirrors s t l) {data : Row} (hdata : data.get? r.metadata.primaryKey = none) (i : Integer) :
    ∃ s' t', r.update s i.json data = (.ok (l.keys.count i.val), s') ∧
      r.Mirrors s' t' (l.adjust i.val (·.merge data)) := by
  obtain ⟨keys, hpicks, hrun⟩ := h.changeMatched i fun t keys => (.ok (t.update keys data).1, (t.update keys data).2)
  have hkeep : ∀ row : Row, (row.merge data).get? t.primaryKey = row.get? t.primaryKey := by
    intro row
    rw [Dict.get?_merge, h.primaryKey, hdata, Option.none_or]
  rw [h.holds.update hpicks] at hrun
  exact ⟨_, _, hrun, h.putTable (h.holds.adjust hkeep i.val) rfl⟩

theorem found (h : r.Mirrors s t l) (i : Integer) :
    r.findById s i.json [] =
      match l.get? i.val with
      | some row => .ok row
      | none => .error (.notFound r.metadata.table i.json) :=
  h.findById (List.forall_mem_nil _) i

end Repository.Mirrors

/-- A call answers as it does on the ledger, and the repository holds the ledger after it. -/
def Repository.Agrees (r : Repository) (s : Store) (l : Ledger) (c : KeyedCall) : Prop :=
  ∃ answer s' t' l', c.run r s = (answer, s') ∧ l.step r.metadata c = (answer, l') ∧ r.Mirrors s' t' l'

namespace Repository.Mirrors

variable {r : Repository} {s : Store} {t : Table} {l : Ledger}

theorem agrees_create (h : r.Mirrors s t l) {row : Row} (hrow : l.Takes r.metadata row) :
    r.Agrees s l (.create row) := by
  rcases h.holds.insert h.primaryKey hrow with ⟨e, hledger, htable⟩ | ⟨stored, l', t', hledger, htable, hkey, hholds⟩
  · have hrun : r.create s row = (.error e, s) := Store.tryTable_of_error h.table htable
    refine ⟨.error (.store e), s, t, l, ?_, ?_, h⟩
    · rw [KeyedCall.run, hrun]
      rfl
    · rw [Ledger.step, hledger]
  · have hrun : r.create s row = (.ok stored, s.putTable r.metadata.table t') := Store.tryTable_of_ok h.table htable
    refine ⟨.ok (.row stored), _, t', l', ?_, ?_, h.putTable hholds (hkey.trans h.primaryKey.symm)⟩
    · rw [KeyedCall.run, hrun]
      rfl
    · rw [Ledger.step, hledger]

theorem agrees_insertGetId (h : r.Mirrors s t l) {row : Row} (hrow : l.Takes r.metadata row) :
    r.Agrees s l (.insertGetId row) := by
  rcases h.holds.insert h.primaryKey hrow with ⟨e, hledger, htable⟩ | ⟨stored, l', t', hledger, htable, hkey, hholds⟩
  · have hrun : r.insertGetId s row = (.error e, s) := Store.tryTable_of_error h.table (by rw [htable]; rfl)
    refine ⟨.error (.store e), s, t, l, ?_, ?_, h⟩
    · rw [KeyedCall.run, hrun]
      rfl
    · rw [Ledger.step, hledger]
  · have hrun : r.insertGetId s row = (.ok (stored.cell t'.primaryKey), s.putTable r.metadata.table t') :=
      Store.tryTable_of_ok h.table (by rw [htable]; rfl)
    refine ⟨.ok (.key (stored.cell r.metadata.primaryKey)), _, t', l', ?_, ?_,
      h.putTable hholds (hkey.trans h.primaryKey.symm)⟩
    · rw [KeyedCall.run, hrun, hkey]
      rfl
    · rw [Ledger.step, hledger]

theorem agrees_update (h : r.Mirrors s t l) {data : Row} (hdata : data.get? r.metadata.primaryKey = none)
    (i : Integer) : r.Agrees s l (.update i data) := by
  obtain ⟨s', t', hrun, hnext⟩ := h.update hdata i
  refine ⟨_, s', t', _, ?_, rfl, hnext⟩
  rw [KeyedCall.run, hrun]
  rfl

theorem agrees_updateById (h : r.Mirrors s t l) {data : Row} (hdata : data.get? r.metadata.primaryKey = none)
    (i : Integer) : r.Agrees s l (.updateById i data) := by
  have hfound := h.found i
  cases hget : l.get? i.val with
  | none =>
      rw [hget] at hfound
      refine ⟨Ledger.missing r.metadata i, s, t, l, ?_, ?_, h⟩
      · rw [KeyedCall.run, Repository.updateById, hfound]
        rfl
      · rw [Ledger.step, hget]
  | some row =>
      rw [hget] at hfound
      obtain ⟨s', t', hrun, hnext⟩ := h.update hdata i
      have hwrite : s.update (r.byKey i.json) data = _ := hrun
      refine ⟨.ok (.row (row.merge data)), s', t', _, ?_, ?_, hnext⟩
      · rw [KeyedCall.run, Repository.updateById, hfound]
        simp only [Repository.write, hwrite]
        rfl
      · rw [Ledger.step, hget]

theorem agrees_increment (h : r.Mirrors s t l) {column : String} (hcolumn : column ≠ r.metadata.primaryKey)
    (amount : Int64) (i : Integer) : r.Agrees s l (.increment i column amount) := by
  obtain ⟨keys, hpicks, hrun⟩ := h.changeMatched i fun t keys => t.increment r.metadata.table keys column amount
  have hkeep : ∀ (a : Json) (row : Row), (row.insert column a).get? t.primaryKey = row.get? t.primaryKey :=
    fun a row => Dict.get?_insert_of_ne row a (h.primaryKey ▸ hcolumn.symm)
  have hstore : r.increment s i.json column amount = _ := hrun
  rw [h.holds.increment hpicks] at hstore
  cases hget : l.get? i.val with
  | none =>
      refine ⟨.ok (.count 0), _, t, l, ?_, ?_, h.putTable h.holds rfl⟩
      · rw [KeyedCall.run, hstore, hget]
        rfl
      · rw [Ledger.step, hget]
  | some row =>
      rw [hget] at hstore
      cases hsum : Table.incremented r.metadata.table column (row.get? column) amount with
      | error e =>
          refine ⟨.error (.store e), _, t, l, ?_, ?_, h.putTable h.holds rfl⟩
          · rw [KeyedCall.run, hstore]
            simp only [hsum]
            rfl
          · simp only [Ledger.step, hget, hsum]
      | ok a =>
          refine ⟨.ok (.count 1), _, _, _, ?_, ?_, h.putTable (h.holds.adjust (hkeep a) i.val) rfl⟩
          · rw [KeyedCall.run, hstore]
            simp only [hsum]
            rfl
          · simp only [Ledger.step, hget, hsum]

theorem delete_of_error {i : Integer} {e : RepositoryError} (hfound : r.findById s i.json [] = .error e) :
    r.delete s i.json = (.error e, s) := by
  rw [Integer.json] at hfound ⊢
  simp only [Repository.delete, hfound]

theorem delete_of_ok {i : Integer} {row : Row} (hfound : r.findById s i.json [] = .ok row) :
    r.delete s i.json = Repository.delete.lift (s.delete (r.byKey i.json)) := by
  rw [Integer.json] at hfound ⊢
  simp only [Repository.delete, hfound]

theorem agrees_delete (h : r.Mirrors s t l) (i : Integer) : r.Agrees s l (.delete i) := by
  have hfound := h.found i
  cases hget : l.get? i.val with
  | none =>
      rw [hget] at hfound
      refine ⟨Ledger.missing r.metadata i, s, t, l, ?_, ?_, h⟩
      · rw [KeyedCall.run, delete_of_error hfound]
        rfl
      · rw [Ledger.step, hget]
  | some row =>
      rw [hget] at hfound
      obtain ⟨keys, hpicks, hrun⟩ := h.changeMatched i fun t keys => (.ok (t.delete keys).1, (t.delete keys).2)
      have hone : ∀ e ∈ l.entries, t.keyIsAmong keys e.2 = decide (e.1 ∈ [i.val]) := by
        intro e he
        rw [hpicks e he]
        simp
      have hcount : l.keys.countP (· ∈ [i.val]) = 1 := by
        have hcounted := Ledger.count_keys l i.val
        rw [hget] at hcounted
        refine (List.countP_congr fun k _ => ?_).trans hcounted
        simp
      have hstore : s.delete (r.byKey i.json) = _ := hrun
      rw [h.holds.delete hone, hcount] at hstore
      refine ⟨.ok (.count 1), _, _, _, ?_, ?_, h.putTable (h.holds.erase [i.val]) rfl⟩
      · rw [KeyedCall.run, delete_of_ok hfound, hstore]
        rfl
      · rw [Ledger.step, hget]

theorem agrees_deleteAll (h : r.Mirrors s t l) (ids : List Integer) : r.Agrees s l (.deleteAll ids) := by
  have hamong : ∀ e ∈ l.entries, t.keyIsAmong (ids.map Integer.json) e.2 = decide (e.1 ∈ ids.map Integer.val) :=
    fun e he => h.holds.keyIsAmong he ids
  have hrun : s.destroy r.metadata.table (ids.map Integer.json) =
      (.ok (t.delete (ids.map Integer.json)).1,
        s.putTable r.metadata.table (t.delete (ids.map Integer.json)).2) :=
    Store.changeTable_of_table h.table _
  rw [h.holds.delete hamong] at hrun
  have hdelete : r.delete s (.array (ids.map Integer.json)) =
      Repository.delete.lift (s.destroy r.metadata.table (ids.map Integer.json)) := rfl
  refine ⟨_, _, _, _, ?_, rfl, h.putTable (h.holds.erase _) rfl⟩
  rw [KeyedCall.run, hdelete, hrun]
  rfl

/-- One call on a repository that holds a ledger is one call on the ledger. -/
theorem agrees (h : r.Mirrors s t l) {c : KeyedCall} (hc : c.Admissible r.metadata l) : r.Agrees s l c := by
  cases c with
  | create row => exact h.agrees_create hc
  | insertGetId row => exact h.agrees_insertGetId hc
  | update i data => exact h.agrees_update hc i
  | updateById i data => exact h.agrees_updateById hc i
  | increment i column amount => exact h.agrees_increment hc amount i
  | delete i => exact h.agrees_delete i
  | deleteAll ids => exact h.agrees_deleteAll ids
  | find i =>
      refine ⟨_, s, t, l, ?_, rfl, h⟩
      rw [KeyedCall.run, h.find]
      rfl
  | valueById i column =>
      refine ⟨_, s, t, l, ?_, rfl, h⟩
      rw [KeyedCall.run, h.valueById hc]
      rfl
  | countAll =>
      refine ⟨_, s, t, l, ?_, rfl, h⟩
      rw [KeyedCall.run, h.countAll]
      rfl
  | findById i columns =>
      have hfound := h.findById hc i
      cases hget : l.get? i.val with
      | none =>
          refine ⟨Ledger.missing r.metadata i, s, t, l, ?_, ?_, h⟩
          · rw [KeyedCall.run, hfound, hget]
            rfl
          · rw [Ledger.step, hget]
      | some row =>
          refine ⟨.ok (.row (row.only columns)), s, t, l, ?_, ?_, h⟩
          · rw [KeyedCall.run, hfound, hget]
            rfl
          · rw [Ledger.step, hget]

theorem runAll (h : r.Mirrors s t l) {calls : List KeyedCall} (hcalls : l.Admits r.metadata calls) :
    KeyedCall.runAll r s calls = (l.stepAll r.metadata calls).map fun e => (e.1, .ok e.2) := by
  induction calls generalizing s t l with
  | nil => rfl
  | cons c rest ih =>
      obtain ⟨hc, hrest⟩ := hcalls
      obtain ⟨answer, s', t', l', hrun, hstep, hnext⟩ := h.agrees hc
      rw [hstep] at hrest
      have hrows : s'.rows r.metadata.table = .ok l'.rows := by
        rw [Store.rows, hnext.table, ← hnext.holds.rows]
        rfl
      rw [KeyedCall.runAll, Ledger.stepAll, hrun, hstep, List.map_cons, hrows, ih hnext hrest]

end Repository.Mirrors

namespace Repository

/-- The notes of a store that has nothing else. -/
def notes : Repository where
  metadata := ⟨"notes", "id"⟩

end Repository

end RowQuery
