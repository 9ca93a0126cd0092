import RowQuery.Proofs.Deletion
import RowQuery.Proofs.Insertion
import RowQuery.Proofs.KeyColumn
import RowQuery.Proofs.Mutation

namespace RowQuery

section Changes

variable {test : Row → Bool} {change first second : Row → Option Row} {rows : List Row}

theorem countP_changedWhere
    (h : ∀ row ∈ rows, test row = true → ∃ changed, change row = some changed ∧ test changed = true) :
    (changedWhere test change rows).countP test = rows.countP test := by
  rw [changedWhere, List.countP_filterMap]
  refine List.countP_congr fun row hrow => ?_
  by_cases htest : test row = true
  · obtain ⟨changed, hchange, hchanged⟩ := h row hrow htest
    simp [htest, hchange, hchanged]
  · simp [htest]

/-- Two changes of the rows that pass a test, of which the first leaves the test as it is, come to one. -/
theorem changedWhere_changedWhere (h : ∀ row ∈ rows, test row = true →
      ∃ changed, first row = some changed ∧ test changed = true ∧ second changed = change row) :
    changedWhere test second (changedWhere test first rows) = changedWhere test change rows := by
  rw [changedWhere, changedWhere, changedWhere, List.filterMap_filterMap]
  refine List.filterMap_congr fun row hrow => ?_
  by_cases htest : test row = true
  · obtain ⟨changed, hfirst, hchanged, hsecond⟩ := h row hrow htest
    simp [htest, hfirst, hchanged, hsecond]
  · simp [htest]

theorem changedWhere_congr (h : ∀ row ∈ rows, test row = true → first row = second row) :
    changedWhere test first rows = changedWhere test second rows := by
  refine List.filterMap_congr fun row hrow => ?_
  by_cases htest : test row = true
  · rw [if_pos htest, if_pos htest, h row hrow htest]
  · rw [if_neg htest, if_neg htest]

end Changes

namespace Table

variable {t t₁ t₂ : Table} {name column : String} {a b c amount : Int64} {keys : List Json}

/-- The integer that an increment counts on from: the one that is held, or zero if nothing is. -/
def counted? : Option Json → Option Int
  | none | some .null => some 0
  | some (.number n) => n.int64?.map Int64.toInt
  | some _ => none

theorem counted?_ofInt64 (k : Int64) : counted? (some (.ofInt64 k)) = some k.toInt := by
  rw [Json.ofInt64, counted?, Number.int64?, Integer.int64?_ofInt64]
  rfl

theorem counted?_isSome {row : Row} : (counted? (row.get? column)).isSome = true ↔
    row.cell column = .null ∨ ∃ k, row.cell column = .ofInt64 k := by
  rw [Row.cell]
  rcases row.get? column with _ | _ | _ | (i | x) | _ | _ | _
  case some.number.integer =>
    simp only [counted?, Number.int64?, Option.isSome_map, Option.isSome_iff_exists, Integer.int64?_eq_some,
      Option.getD_some, Json.ofInt64, Json.number.injEq, Number.integer.injEq, reduceCtorEq, false_or]
  all_goals simp [counted?, Number.int64?, Json.ofInt64]

/-- A row with an integer added to what a column counts. -/
def summed? (column : String) (amount : Int) (row : Row) : Option Row :=
  (counted? (row.get? column)).bind fun held => (int64OfInt? (held + amount)).map fun sum =>
    row.insert column (.ofInt64 sum)

theorem incremented_counted {held : Option Json} {k : Int} (h : counted? held = some k) :
    (incremented name column held amount).toOption = (int64OfInt? (k + amount.toInt)).map .ofInt64 := by
  unfold counted? at h
  split at h
  iterate 2
    obtain rfl := Option.some.inj h
    rw [Int.zero_add, int64OfInt?_toInt]
    rfl
  · obtain ⟨i, hi, rfl⟩ := Option.map_eq_some_iff.mp h
    rw [incremented_int64 hi]
    cases int64OfInt? (i.toInt + amount.toInt) <;> rfl
  · cases h

theorem raised?_of_counted {row : Row} (h : (counted? (row.get? column)).isSome) :
    raised? name column amount row = summed? column amount.toInt row := by
  obtain ⟨k, hk⟩ := Option.isSome_iff_exists.mp h
  rw [raised?, incremented_counted hk, summed?, hk, Option.map_map]
  rfl

theorem summed?_eq_some {x : Int} {row sum : Row} : summed? column x row = some sum ↔
    ∃ k i, counted? (row.get? column) = some k ∧ int64OfInt? (k + x) = some i ∧
      row.insert column (.ofInt64 i) = sum := by
  simp only [summed?, Option.bind_eq_some_iff, Option.map_eq_some_iff, exists_and_left]

theorem counted?_of_summed? {x : Int} {row sum : Row} (h : summed? column x row = some sum) :
    (counted? (sum.get? column)).isSome := by
  obtain ⟨k, i, -, -, rfl⟩ := summed?_eq_some.mp h
  rw [Dict.get?_insert_self, counted?_ofInt64]
  rfl

/-- Once an integer has been added, adding another one comes to adding their sum. -/
theorem summed?_summed? {x : Int} {row sum : Row} (h : summed? column x row = some sum) (y : Int) :
    summed? column y sum = summed? column (x + y) row := by
  obtain ⟨k, i, hk, hi, rfl⟩ := summed?_eq_some.mp h
  rw [summed?, summed?, Dict.get?_insert_self, counted?_ofInt64, toInt_of_int64OfInt? hi, hk]
  simp only [Option.bind_some, Dict.insert_insert, Int.add_assoc]

theorem incrementEach_congr {test other : Row → Bool} {rows : List Row} (h : ∀ row ∈ rows, test row = other row) :
    incrementEach name column amount test rows = incrementEach name column amount other rows := by
  induction rows with
  | nil => rfl
  | cons row rest ih =>
      obtain ⟨hrow, hrest⟩ := List.forall_mem_cons.mp h
      rw [incrementEach, incrementEach, hrow, ih hrest]

/-- Two increments one after the other, and what they come to. -/
theorem increment_twice (hcolumn : column ≠ t.primaryKey)
    (hcounted : ∀ row ∈ t.rows, t.keyIsAmong keys row = true → (counted? (row.get? column)).isSome) {n m : Nat}
    (hfirst : t.increment name keys column a = (.ok n, t₁))
    (hsecond : t₁.increment name keys column b = (.ok m, t₂)) :
    m = n ∧ n = t.rows.countP (t.keyIsAmong keys) ∧
      (∀ row ∈ t.rows, t.keyIsAmong keys row = true → (summed? column (a.toInt + b.toInt) row).isSome) ∧
      t₂ = { t with
        rows := changedWhere (t.keyIsAmong keys) (summed? column (a.toInt + b.toInt)) t.rows } := by
  obtain ⟨rfl, hraised, rfl⟩ := increment_eq_ok.mp hfirst
  obtain ⟨rfl, hraised₁, rfl⟩ := increment_eq_ok.mp hsecond
  have hstep : ∀ row ∈ t.rows, t.keyIsAmong keys row = true → ∃ sum, raised? name column a row = some sum ∧
      t.keyIsAmong keys sum = true ∧ raised? name column b sum = summed? column (a.toInt + b.toInt) row := by
    intro row hrow hmatched
    obtain ⟨sum, hsum⟩ := Option.isSome_iff_exists.mp (hraised row hrow hmatched)
    have hsummed := hsum
    rw [raised?_of_counted (hcounted row hrow hmatched)] at hsummed
    obtain ⟨k, i, -, -, rfl⟩ := summed?_eq_some.mp hsummed
    refine ⟨_, hsum, (keyIsAmong_insert hcolumn keys row _).trans hmatched, ?_⟩
    rw [raised?_of_counted (counted?_of_summed? hsummed), summed?_summed? hsummed]
  refine ⟨countP_changedWhere fun row hrow hmatched => ?_, rfl, fun row hrow hmatched => ?_, ?_⟩
  · obtain ⟨sum, hsum, hkept, -⟩ := hstep row hrow hmatched
    exact ⟨sum, hsum, hkept⟩
  · obtain ⟨sum, hsum, hkept, htwice⟩ := hstep row hrow hmatched
    rw [← htwice]
    exact hraised₁ sum (List.mem_filterMap.mpr ⟨row, hrow, by rw [if_pos hmatched, hsum]⟩) hkept
  · exact congrArg (fun rows => { t with rows }) (changedWhere_changedWhere hstep)

end Table

namespace Repository

variable {r : Repository} {s : Store} {t : Table}

/-- A null asks for no row of a table whose rows all have a key. -/
theorem matchedKeys_byKey_null (ht : s.table r.metadata.table = .ok t) (hkey : t.primaryKey = r.metadata.primaryKey)
    (hplain : '.' ∉ r.metadata.primaryKey.toList) (hkeyed : t.Keyed) : s.matchedKeys (r.byKey .null) = .ok [] := by
  have hmeets : ∀ row ∈ t.rows, (Tuple.ofRow r.metadata.table row).meetsAll (r.byKey .null).clauses = .ok false := by
    intro row hrow
    obtain ⟨key, hget, hnull⟩ := hkeyed.key_of_mem hrow
    have hcell : (Tuple.ofRow r.metadata.table row).resolve r.metadata.primaryKey = key := by
      rw [Tuple.resolve_ofRow hplain, Row.cell, ← hkey, hget, Option.getD_some]
    refine Tuple.meetsAll_single ?_
    rw [Tuple.meets, hcell, Operator.evaluate_isNull, hnull]
  have htuples : s.selectTuples (r.byKey .null) = .ok (([] : List Row).map (Tuple.ofRow r.metadata.table)) := by
    refine (Store.selectTuples_of_plain rfl ht).mpr ⟨fun row hrow => ⟨false, hmeets row hrow⟩, ?_⟩
    have hnone : (t.rows.filter fun row => passes (·.meetsAll (r.byKey .null).clauses)
        (Tuple.ofRow (r.byKey .null).table row)) = [] :=
      List.filter_eq_nil_iff.mpr fun row hrow hpasses =>
        Bool.false_ne_true (Except.ok.inj ((hmeets row hrow).symm.trans (passes_iff.mp hpasses)))
    show _ = Store.paginated none (sortedBy _ (List.map _ (List.filter _ _)))
    rw [hnone]
    rfl
  exact Store.matchedKeys_ofRow ht htuples

theorem matchedKeys_byKey (ht : s.table r.metadata.table = .ok t) (hkey : t.primaryKey = r.metadata.primaryKey)
    (hplain : '.' ∉ r.metadata.primaryKey.toList) (hkeyed : t.Keyed) (id : Json) :
    ∃ keys, s.matchedKeys (r.byKey id) = .ok keys ∧
      ∀ row ∈ t.rows, t.keyIsAmong keys row = t.keyIsAmong [id] row := by
  cases hid : id.isNull with
  | true =>
      obtain rfl := Json.isNull_iff.mp hid
      refine ⟨[], matchedKeys_byKey_null ht hkey hplain hkeyed, fun row _ => ?_⟩
      rw [Table.keyIsAmong, Table.keyIsAmong]
      cases row.get? t.primaryKey <;> simp
  | false =>
      have htuples := Store.selectTuples_resolved (q := r.byKey id) rfl rfl rfl ht hid
      refine ⟨_, Store.matchedKeys_ofRow ht htuples, fun row hrow => ?_⟩
      rw [← names_of_plain hkey hplain]
      exact hkeyed.keyIsAmong_cells hrow

/-- An increment by key is one of the rows whose key is equal to it. -/
theorem increment_byKey (ht : s.table r.metadata.table = .ok t) (hkey : t.primaryKey = r.metadata.primaryKey)
    (hplain : '.' ∉ r.metadata.primaryKey.toList) (hkeyed : t.Keyed) (id : Json) (column : String) (amount : Int64) :
    r.increment s id column amount =
      ((t.increment r.metadata.table [id] column amount).1,
        s.putTable r.metadata.table (t.increment r.metadata.table [id] column amount).2) := by
  obtain ⟨keys, hkeys, hmatched⟩ := matchedKeys_byKey ht hkey hplain hkeyed id
  have hsame : t.increment r.metadata.table keys column amount = t.increment r.metadata.table [id] column amount := by
    rw [Table.increment, Table.increment, Table.incrementEach_congr hmatched]
  rw [increment, Store.increment, Store.changeMatched_of_keys (q := r.byKey id) ht hkeys]
  show ((t.increment r.metadata.table keys column amount).1, _) = _
  rw [← hsame]
  rfl

theorem increment_byKey_twice (ht : s.table r.metadata.table = .ok t) (hkey : t.primaryKey = r.metadata.primaryKey)
    (hplain : '.' ∉ r.metadata.primaryKey.toList) (hkeyed : t.Keyed) {id : Json} {column : String}
    (hcolumn : column ≠ r.metadata.primaryKey)
    (hcounted : ∀ row ∈ t.rows, t.keyIsAmong [id] row = true → (Table.counted? (row.get? column)).isSome)
    {a b : Int64} {n m : Nat} {s₁ s₂ : Store} (hfirst : r.increment s id column a = (.ok n, s₁))
    (hsecond : r.increment s₁ id column b = (.ok m, s₂)) :
    m = n ∧ n = t.rows.countP (t.keyIsAmong [id]) ∧
      (∀ row ∈ t.rows, t.keyIsAmong [id] row = true →
        (Table.summed? column (a.toInt + b.toInt) row).isSome) ∧
      s₂ = s.putTable r.metadata.table { t with
        rows := changedWhere (t.keyIsAmong [id]) (Table.summed? column (a.toInt + b.toInt)) t.rows } := by
  have hother : column ≠ t.primaryKey := hkey ▸ hcolumn
  rw [increment_byKey ht hkey hplain hkeyed] at hfirst
  obtain ⟨hcount, rfl⟩ := Prod.mk.inj hfirst
  generalize hrun : (t.increment r.metadata.table [id] column a).2 = t₁ at hsecond
  have hfirst : t.increment r.metadata.table [id] column a = (.ok n, t₁) := Prod.ext hcount hrun
  have hkeyed₁ : t₁.Keyed := hkeyed.of_keyColumn (hrun ▸ Table.keyColumn_increment hother r.metadata.table [id] a)
  have hkey₁ : t₁.primaryKey = r.metadata.primaryKey := hrun ▸ hkey
  rw [increment_byKey (Store.table_putTable s _ t₁) hkey₁ hplain hkeyed₁] at hsecond
  obtain ⟨hcount₂, rfl⟩ := Prod.mk.inj hsecond
  obtain ⟨hm, hn, hsummed, hrows⟩ := Table.increment_twice hother hcounted hfirst (Prod.ext hcount₂ rfl)
  exact ⟨hm, hn, hsummed, (Store.putTable_putTable s _ _ _).trans (congrArg _ hrows)⟩

/-- Increments of a column of 64-bit integers add up and may change places. If two of them succeed, a single one by
their sum succeeds as well, and it counts the same rows and leaves the same store. If two succeed in either order,
the store is the same. -/
theorem increments_add_up (r : Repository) (s : Store) {t : Table} (ht : s.table r.metadata.table = .ok t)
    (hkey : t.primaryKey = r.metadata.primaryKey) (hplain : '.' ∉ r.metadata.primaryKey.toList) (hkeyed : t.Keyed)
    (id : Json) (column : String) (hcolumn : column ≠ r.metadata.primaryKey)
    (hcounted : ∀ row ∈ t.rows, t.keyIsAmong [id] row = true →
      row.cell column = .null ∨ ∃ k, row.cell column = .ofInt64 k) (a b : Int64) :
    (∀ n m s₁ s₂ c, c.toInt = a.toInt + b.toInt → r.increment s id column a = (.ok n, s₁) →
      r.increment s₁ id column b = (.ok m, s₂) → m = n ∧ r.increment s id column c = (.ok n, s₂)) ∧
    (∀ n m s₁ s₂ n' m' s₁' s₂', r.increment s id column a = (.ok n, s₁) → r.increment s₁ id column b = (.ok m, s₂) →
      r.increment s id column b = (.ok n', s₁') → r.increment s₁' id column a = (.ok m', s₂') → s₂' = s₂) := by
  have hcounted : ∀ row ∈ t.rows, t.keyIsAmong [id] row = true → (Table.counted? (row.get? column)).isSome :=
    fun row hrow hmatched => Table.counted?_isSome.mpr (hcounted row hrow hmatched)
  refine ⟨fun n m s₁ s₂ c hsum hfirst hsecond => ?_, fun n m s₁ s₂ n' m' s₁' s₂' ha hab hb hba => ?_⟩
  · obtain ⟨hm, hn, hsummed, hstore⟩ :=
      increment_byKey_twice ht hkey hplain hkeyed hcolumn hcounted hfirst hsecond
    have hraised : ∀ row ∈ t.rows, t.keyIsAmong [id] row = true →
        Table.raised? r.metadata.table column c row = Table.summed? column (a.toInt + b.toInt) row := by
      intro row hrow hmatched
      rw [Table.raised?_of_counted (hcounted row hrow hmatched), hsum]
    have hsingle : t.increment r.metadata.table [id] column c = (.ok n, { t with
        rows := changedWhere (t.keyIsAmong [id]) (Table.summed? column (a.toInt + b.toInt)) t.rows }) := by
      refine Table.increment_eq_ok.mpr ⟨hn, fun row hrow hmatched => ?_, ?_⟩
      · rw [hraised row hrow hmatched]
        exact hsummed row hrow hmatched
      · rw [changedWhere_congr hraised]
    refine ⟨hm, ?_⟩
    rw [increment_byKey ht hkey hplain hkeyed, hsingle, hstore]
  · obtain ⟨-, -, -, hstore⟩ := increment_byKey_twice ht hkey hplain hkeyed hcolumn hcounted ha hab
    obtain ⟨-, -, -, hstore'⟩ := increment_byKey_twice ht hkey hplain hkeyed hcolumn hcounted hb hba
    rw [hstore, hstore', Int.add_comm]

/-- Two counters, of which one is near the end of its range and the other one has not begun. -/
def counterTable : Table where
  primaryKey := "id"
  rows := [.ofList [("id", .ofInt64 1), ("n", .ofInt64 9223372036854775800)], .ofList [("id", .ofInt64 2)]]

def counterStore : Store where
  tables := .ofList [("counters", counterTable)]

def counters : Repository where
  metadata := ⟨"counters", "id"⟩

theorem increments_add_up_counters :
    ∃ s₁ s₂ s₁', counters.increment counterStore (.ofInt64 1) "n" (-10) = (.ok 1, s₁) ∧
      counters.increment s₁ (.ofInt64 1) "n" 7 = (.ok 1, s₂) ∧
      counters.increment counterStore (.ofInt64 1) "n" (-3) = (.ok 1, s₂) ∧
      counters.increment counterStore (.ofInt64 1) "n" 7 = (.ok 1, s₁') ∧
      counters.increment s₁' (.ofInt64 1) "n" (-10) = (.ok 1, s₂) := by
  have hkeyed : counterTable.Keyed := by decide
  have hcounted : ∀ row ∈ counterTable.rows, counterTable.keyIsAmong [.ofInt64 1] row = true →
      row.cell "n" = .null ∨ ∃ k, row.cell "n" = .ofInt64 k := by
    have hall : ∀ row ∈ counterTable.rows, (Table.counted? (row.get? "n")).isSome := by decide
    exact fun row hrow _ => Table.counted?_isSome.mp (hall row hrow)
  obtain ⟨hsum, hswap⟩ := increments_add_up counters counterStore (t := counterTable) rfl rfl (by decide) hkeyed
    (.ofInt64 1) "n" (by decide) hcounted (-10) 7
  have h₁ : counters.increment counterStore (.ofInt64 1) "n" (-10) = (.ok 1, _) := Prod.ext (by decide) rfl
  have h₂ : counters.increment (counters.increment counterStore (.ofInt64 1) "n" (-10)).2 (.ofInt64 1) "n" 7 =
    (.ok 1, _) := Prod.ext (by decide) rfl
  have h₁' : counters.increment counterStore (.ofInt64 1) "n" 7 = (.ok 1, _) := Prod.ext (by decide) rfl
  have h₂' : counters.increment (counters.increment counterStore (.ofInt64 1) "n" 7).2 (.ofInt64 1) "n" (-10) =
    (.ok 1, _) := Prod.ext (by decide) rfl
  obtain ⟨-, hsingle⟩ := hsum _ _ _ _ (-3) (by decide) h₁ h₂
  have hsame := hswap _ _ _ _ _ _ _ _ h₁ h₂ h₁' h₂'
  exact ⟨_, _, _, h₁, h₂, hsingle, h₁', hsame ▸ h₂'⟩

end Repository

end RowQuery
