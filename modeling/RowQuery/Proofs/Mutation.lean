import RowQuery.Proofs.Keys
import RowQuery.Proofs.Origin
import RowQuery.Proofs.Tables
import RowQuery.Store.Writing
import Mathlib.Data.Finset.Card

namespace RowQuery

/-- The rows with those that pass a test changed, or left out where the change gives nothing. -/
def changedWhere (test : Row → Bool) (change : Row → Option Row) (rows : List Row) : List Row :=
  rows.filterMap fun row => if test row then change row else some row

section Places

variable {rows : List Row} {test : Row → Bool} {places : List Nat}

end Places

namespace Table

/-- What comes of an integer of 64 bits: the sum, if it fits. -/
theorem incremented_int64 {name column : String} {amount i : Int64} {m : Number} (h : m.int64? = some i) :
    incremented name column (some (.number m)) amount =
      match int64OfInt? (i.toInt + amount.toInt) with
      | some sum => .ok (.ofInt64 sum)
      | none => .error (.incrementOverflow name column amount i) := by
  cases hsum : int64OfInt? (i.toInt + amount.toInt) <;> simp only [incremented, h, hsum]

theorem incremented_double {name column : String} {amount : Int64} {m : Number} (h : m.int64? = none) :
    incremented name column (some (.number m)) amount =
      .ok (.ofDouble (m.toDouble.add (.ofInt amount.toInt))) := by
  simp only [incremented, h]

def raised? (name column : String) (amount : Int64) (row : Row) : Option Row :=
  (incremented name column (row.get? column) amount).toOption.map (row.insert column)

theorem update_eq (t : Table) (keys : List Json) (data : Row) :
    t.update keys data = (t.rows.countP (t.keyIsAmong keys),
      { t with rows := changedWhere (t.keyIsAmong keys) (fun row => some (row.merge data)) t.rows }) := by
  have hrows : (fun row => if t.keyIsAmong keys row then some (row.merge data) else some row) =
      fun row => some (if t.keyIsAmong keys row then row.merge data else row) := by
    funext row
    split <;> rfl
  rw [changedWhere, hrows, List.filterMap_eq_map']
  rfl

theorem raised?_isSome {name column : String} {amount : Int64} {row : Row} :
    (raised? name column amount row).isSome ↔ ∃ a, incremented name column (row.get? column) amount = .ok a := by
  unfold raised?
  cases incremented name column (row.get? column) amount <;> simp [Except.toOption]

theorem incrementEach_eq_ok {name column : String} {amount : Int64} {test : Row → Bool} {rows after : List Row}
    {n : Nat} (h : incrementEach name column amount test rows = (.ok n, after)) :
    n = rows.countP test ∧ (∀ row ∈ rows, test row = true → (raised? name column amount row).isSome) ∧
      after = changedWhere test (raised? name column amount) rows := by
  induction rows generalizing n after with
  | nil =>
      obtain ⟨hn, ha⟩ := Prod.mk.inj h
      have hzero : 0 = n := Except.ok.inj hn
      simp [changedWhere, ← hzero, ← ha]
  | cons row rest ih =>
      obtain ⟨⟨count, kept⟩, hrest⟩ : ∃ r, incrementEach name column amount test rest = r := ⟨_, rfl⟩
      cases htest : test row with
      | false =>
          simp only [incrementEach, htest, hrest, Bool.false_eq_true, if_false, Prod.mk.injEq] at h
          obtain ⟨rfl, rfl⟩ := h
          obtain ⟨hn, hsum, hkept⟩ := ih hrest
          refine ⟨?_, ?_, ?_⟩
          · rw [hn, List.countP_cons_of_neg (by simp [htest])]
          · simpa [htest] using hsum
          · simp [changedWhere, htest, hkept]
      | true =>
          cases ha : incremented name column (row.get? column) amount with
          | error e => simp [incrementEach, htest, ha] at h
          | ok a =>
              simp only [incrementEach, htest, ha, hrest, if_true, Prod.mk.injEq] at h
              obtain ⟨hcount, rfl⟩ := h
              obtain ⟨m, rfl, rfl⟩ := Outcome.map_eq_ok.mp hcount
              obtain ⟨hm, hsum, hkept⟩ := ih hrest
              have hraised : raised? name column amount row = some (row.insert column a) := by
                simp [raised?, ha, Except.toOption]
              refine ⟨?_, ?_, ?_⟩
              · rw [hm, List.countP_cons_of_pos htest]
              · simpa [hraised] using hsum
              · simp [changedWhere, htest, hraised, hkept]

theorem incrementEach_of_raised {name column : String} {amount : Int64} {test : Row → Bool} {rows : List Row}
    (h : ∀ row ∈ rows, test row = true → (raised? name column amount row).isSome) :
    incrementEach name column amount test rows =
      (.ok (rows.countP test), changedWhere test (raised? name column amount) rows) := by
  induction rows with
  | nil => rfl
  | cons row rest ih =>
      obtain ⟨hrow, hrest⟩ := List.forall_mem_cons.mp h
      rw [incrementEach, ih hrest]
      by_cases htest : test row = true
      · obtain ⟨a, ha⟩ := raised?_isSome.mp (hrow htest)
        have hraised : raised? name column amount row = some (row.insert column a) := by
          rw [raised?, ha]
          rfl
        simp [htest, ha, hraised, changedWhere, Except.map]
      · simp [htest, changedWhere]

theorem increment_eq_ok {t t' : Table} {name column : String} {amount : Int64} {keys : List Json} {n : Nat} :
    t.increment name keys column amount = (.ok n, t') ↔
    n = t.rows.countP (t.keyIsAmong keys) ∧
      (∀ row ∈ t.rows, t.keyIsAmong keys row = true → (raised? name column amount row).isSome) ∧
      t' = { t with rows := changedWhere (t.keyIsAmong keys) (raised? name column amount) t.rows } := by
  constructor
  · intro h
    obtain ⟨hcount, rfl⟩ := Prod.mk.inj h
    obtain ⟨hn, hraised, hrows⟩ := incrementEach_eq_ok (Prod.ext hcount rfl)
    exact ⟨hn, hraised, congrArg (fun rows => { t with rows }) hrows⟩
  · rintro ⟨rfl, hraised, rfl⟩
    rw [increment, incrementEach_of_raised hraised]

end Table

namespace Store

variable {s : Store} {q : Query} {t : Table} {traced : List Traced}

theorem matchedKeys_of_error {e : StoreError} (h : s.selectTuples q = .error e) : s.matchedKeys q = .error e := by
  unfold matchedKeys
  cases ht : s.table q.table with
  | ok t => simp [h, bind, Except.bind]
  | error e' =>
      simp only [selectTuples, filteredTuples, joinedTuples, ht, bind, Except.bind] at h ⊢
      exact congrArg Except.error (Except.error.inj h)

end Store

end RowQuery
