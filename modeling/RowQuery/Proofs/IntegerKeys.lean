import RowQuery.Proofs.Deletion
import RowQuery.Proofs.Insertion
import RowQuery.Proofs.Ledger
import RowQuery.Proofs.RoundedIntegers

namespace RowQuery

open Double (Exact rounded)

namespace Integer

theorem compare?_json (i j : Integer) : i.json.compare? j.json = some (compare (rounded i.val) (rounded j.val)) :=
  Double.compare?_rounded i.natAbs_lt j.natAbs_lt

theorem equal_json (i j : Integer) : i.json.equal j.json = true ↔ rounded i.val = rounded j.val := by
  rw [Json.equal, compare?_json, beq_iff_eq, Option.some_inj, Int.compare_eq_eq]

/-- Only different integers that are rounded to the same number are not compared as they should be. -/
theorem compare?_json_exact_iff {i j : Integer} :
    i.json.compare? j.json = some (compare i.val j.val) ↔ i.val = j.val ∨ rounded i.val ≠ rounded j.val := by
  rw [compare?_json, Option.some_inj]
  constructor
  · intro h
    refine or_iff_not_imp_right.mpr fun hsame => ?_
    rw [Int.compare_eq_eq.mpr (not_not.mp hsame)] at h
    exact Int.compare_eq_eq.mp h.symm
  · rintro (hval | hdiffer)
    · rw [hval, Int.compare_eq_eq.mpr rfl, Int.compare_eq_eq.mpr rfl]
    -- The rounding keeps the order, so a difference that is left after it has the right sign.
    · rcases Int.lt_or_gt_of_ne hdiffer with hlt | hgt
      · have hval : i.val < j.val := Int.not_le.mp fun hle => Int.not_le.mpr hlt (Double.rounded_mono hle)
        rw [Int.compare_eq_lt.mpr hlt, Int.compare_eq_lt.mpr hval]
      · have hval : j.val < i.val := Int.not_le.mp fun hle => Int.not_le.mpr hgt (Double.rounded_mono hle)
        rw [Int.compare_eq_gt.mpr hgt, Int.compare_eq_gt.mpr hval]

/-- The order is that of the integers themselves if one of them is small or a double holds both exactly. -/
theorem compare?_json_of_exact {i j : Integer}
    (h : i.val.natAbs < 2 ^ 53 ∨ j.val.natAbs < 2 ^ 53 ∨ Exact i.val.natAbs ∧ Exact j.val.natAbs) :
    i.json.compare? j.json = some (compare i.val j.val) := by
  rcases h with hi | hj | ⟨hi, hj⟩
  · exact Double.compare?_ofInt hi j.natAbs_lt
  · have hswapped : j.json.compare? i.json = some (compare j.val i.val) := Double.compare?_ofInt hj i.natAbs_lt
    rw [Json.compare?_swap j.json i.json, hswapped, Option.map_some, Int.compare_swap]
  · rw [compare?_json, Double.rounded_eq_self.mpr hi, Double.rounded_eq_self.mpr hj]

end Integer

namespace Table

variable {t : Table} {row : Row} {i j : Integer}

theorem keyIsAmong_json (h : t.keyOf? row = some j.json) :
    t.keyIsAmong [i.json] row = true ↔ rounded j.val = rounded i.val := by
  rw [keyIsAmong_eq_any, h, Option.any_some, ← Integer.equal_json]
  simp

end Table

namespace Repository

variable {r : Repository} {s : Store} {t : Table}

/-- Which rows an integer key stands for: those whose integer keys are rounded to the same number. -/
structure MatchesRounded (r : Repository) (s : Store) (t : Table) (i : Integer) : Prop where
  among : ∀ row (j : Integer), t.keyOf? row = some j.json →
    (t.keyIsAmong [i.json] row = true ↔ rounded j.val = rounded i.val)
  insert : ∀ row, t.keyOf? row = some i.json →
    ((∃ e, t.insert r.metadata.table row = .error e) ↔ ∃ other ∈ t.rows, t.keyIsAmong [i.json] other = true)
  find : r.findById s i.json [] = r.found i.json (.ok (t.rows.find? (t.keyIsAmong [i.json])))
  delete : (r.delete s i.json).2 = s.putTable r.metadata.table (t.without (t.keyIsAmong [i.json]))

theorem matchesRounded (ht : s.table r.metadata.table = .ok t) (hkey : t.primaryKey = r.metadata.primaryKey)
    (hplain : '.' ∉ r.metadata.primaryKey.toList) (hkeyed : t.Keyed) (i : Integer) : r.MatchesRounded s t i where
  among _ _ h := Table.keyIsAmong_json h
  insert _ h := Table.insert_refused h
  find := by
    rw [findById_named ht hkey rfl, names_of_plain hkey hplain]
  delete := by
    have hsingle : ∀ ids, i.json ≠ .array ids := fun _ => Json.noConfusion
    rw [← names_of_plain hkey hplain]
    rcases delete_single_of_keyed ht hkey hkeyed rfl hsingle with ⟨hnone, hcount⟩ | ⟨hdeleted, -⟩
    · rw [hnone, Table.without_of_none hcount, Store.putTable_self ht]
    · rw [hdeleted]

/-- Integers are compared, as keys too, as what they are rounded to. So the comparison is right unless two different
integers are rounded to the same number. The rounding keeps the order and misses an integer by 1024 at most; it misses
none that a double holds exactly, and none below `2 ^ 53`, where even one such integer makes the comparison right. -/
theorem integers_compare_rounded (i j : Integer) :
    i.json.compare? j.json = some (compare (rounded i.val) (rounded j.val)) ∧
    (i.json.compare? j.json = some (compare i.val j.val) ↔ i.val = j.val ∨ rounded i.val ≠ rounded j.val) ∧
    (i.val.natAbs < 2 ^ 53 ∨ j.val.natAbs < 2 ^ 53 ∨ Exact i.val.natAbs ∧ Exact j.val.natAbs →
      i.json.compare? j.json = some (compare i.val j.val)) ∧
    (i.val ≤ j.val → rounded i.val ≤ rounded j.val) ∧
    (rounded i.val - i.val).natAbs ≤ 1024 ∧ (rounded i.val = i.val ↔ Exact i.val.natAbs) ∧
    ∀ (r : Repository) (s : Store) (t : Table), s.table r.metadata.table = .ok t →
      t.primaryKey = r.metadata.primaryKey → '.' ∉ r.metadata.primaryKey.toList → t.Keyed → r.MatchesRounded s t i :=
  ⟨Integer.compare?_json i j, Integer.compare?_json_exact_iff, Integer.compare?_json_of_exact, Double.rounded_mono,
    Double.rounded_error i.natAbs_lt, Double.rounded_eq_self,
    fun _ _ _ ht hkey hplain hkeyed => matchesRounded ht hkey hplain hkeyed i⟩

def edge : Integer where
  val := 9007199254740992
  lower := by decide
  upper := by decide

/-- The first integer from zero up that no double holds. -/
def pastEdge : Integer where
  val := 9007199254740993
  lower := by decide
  upper := by decide

def parcelTable : Table where
  primaryKey := "id"
  rows := [.ofList [("id", edge.json)]]

def parcelStore : Store where
  tables := .ofList [("parcels", parcelTable)]

def parcels : Repository where
  metadata := ⟨"parcels", "id"⟩

theorem integers_compare_rounded_parcels :
    edge.json.compare? (Integer.ofInt64 1).json = some .gt ∧
    (∃ e, parcelTable.insert "parcels" (.ofList [("id", pastEdge.json)]) = .error e) ∧
    (parcels.delete parcelStore pastEdge.json).2 = parcelStore.putTable "parcels" { parcelTable with rows := [] } := by
  obtain ⟨-, -, hexact, -⟩ := integers_compare_rounded edge (.ofInt64 1)
  obtain ⟨-, -, -, -, -, -, hmatches⟩ := integers_compare_rounded pastEdge edge
  have hkeyed : parcelTable.Keyed := by decide
  have hparcels := hmatches parcels parcelStore parcelTable rfl rfl (by decide) hkeyed
  have hrounded : rounded edge.val = rounded pastEdge.val := by decide
  have hamong : ∀ row ∈ parcelTable.rows, parcelTable.keyIsAmong [pastEdge.json] row = true :=
    List.forall_mem_singleton.mpr ((hparcels.among _ edge (by decide)).mpr hrounded)
  have hrows : parcelTable.rows.filter (fun row => !parcelTable.keyIsAmong [pastEdge.json] row) = [] :=
    List.filter_eq_nil_iff.mpr fun row hrow => by simp [hamong row hrow]
  refine ⟨hexact (.inr (.inl (by decide))), ?_, ?_⟩
  · exact (hparcels.insert _ (by decide)).mpr ⟨_, List.mem_singleton_self _, hamong _ (List.mem_singleton_self _)⟩
  · rw [hparcels.delete, Table.without, hrows]
    rfl

/-- Two neighbours that are rounded to one number count as equal, so a row of the one is taken for a row of the
other. -/
theorem neighbours_compare_equal :
    ¬∀ i j : Integer, i.json.compare? j.json = some (compare i.val j.val) := by
  intro hexact
  have hequal : edge.json.compare? pastEdge.json = some .eq := by decide
  have hless : compare edge.val pastEdge.val = .lt := by decide
  rw [hexact, hless] at hequal
  cases hequal

end Repository

end RowQuery
