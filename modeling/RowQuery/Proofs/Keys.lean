import RowQuery.Proofs.Equality
import RowQuery.Store.Table

namespace RowQuery.Table

variable {t : Table}

/-- Every row has a key, and no two of the keys count as equal. -/
structure Keyed (t : Table) : Prop where
  present : ∀ row ∈ t.rows, (t.keyOf? row).isSome
  distinct : (t.rows.filterMap t.keyOf?).Pairwise fun a b => a.equal b = false

instance (t : Table) : Decidable t.Keyed :=
  decidable_of_iff ((∀ row ∈ t.rows, (t.keyOf? row).isSome) ∧
      (t.rows.filterMap t.keyOf?).Pairwise fun a b => a.equal b = false)
    ⟨fun h => ⟨h.1, h.2⟩, fun h => ⟨h.present, h.distinct⟩⟩

theorem keyOf?_eq_some {row : Row} {key : Json} :
    t.keyOf? row = some key ↔ row.get? t.primaryKey = some key ∧ key.isNull = false := by
  simp [keyOf?, Option.filter_eq_some_iff]

theorem keyOf?_congr {t' : Table} (h : t'.primaryKey = t.primaryKey) : t'.keyOf? = t.keyOf? := by
  funext row
  rw [keyOf?, keyOf?, h]

theorem Keyed.key_of_mem (h : t.Keyed) {row : Row} (hrow : row ∈ t.rows) :
    ∃ key, row.get? t.primaryKey = some key ∧ key.isNull = false := by
  obtain ⟨key, hkey⟩ := Option.isSome_iff_exists.mp (h.present row hrow)
  exact ⟨key, keyOf?_eq_some.mp hkey⟩

theorem Keyed.place_unique (h : t.Keyed) {i j : Nat} {row other : Row} {key key' : Json}
    (hi : t.rows[i]? = some row) (hj : t.rows[j]? = some other) (hkey : t.keyOf? row = some key)
    (hkey' : t.keyOf? other = some key') (heq : key.equal key' = true) : i = j := by
  obtain ⟨hli, rfl⟩ := List.getElem?_eq_some_iff.mp hi
  obtain ⟨hlj, rfl⟩ := List.getElem?_eq_some_iff.mp hj
  have hpair := List.pairwise_iff_getElem.mp (List.pairwise_filterMap.mp h.distinct)
  rcases Nat.lt_trichotomy i j with hlt | heqij | hgt
  · have hne := hpair i j hli hlj hlt key hkey key' hkey'
    rw [heq] at hne
    cases hne
  · exact heqij
  · have hne := hpair j i hlj hli hgt key' hkey' key hkey
    rw [Json.equal_comm, heq] at hne
    cases hne

end RowQuery.Table
