import RowQuery.Proofs.Keys
import RowQuery.Proofs.Rounding
import RowQuery.Proofs.Tables

namespace RowQuery

section Counter

theorem toInt_succ {k : Int64} (h : k ≠ .maxValue) : (k + 1).toInt = k.toInt + 1 := by
  have hl := Int64.le_toInt k
  have hu := Int64.toInt_lt k
  have hne : k.toInt ≠ 9223372036854775807 := fun heq => h (Int64.toInt_inj.mp heq)
  have hone : (1 : Int64).toInt = 1 := rfl
  rw [Int64.toInt_add, hone, Int.bmod_eq_of_le] <;> omega

theorem toInt_max (a b : Int64) : (max a b).toInt = max a.toInt b.toInt := by
  show (if a ≤ b then b else a).toInt = _
  simp only [Int64.le_iff_toInt_le]
  split <;> omega

theorem Integer.int64?_eq_some {i : Integer} {k : Int64} : i.int64? = some k ↔ i = .ofInt64 k := by
  constructor
  · intro h
    have hval := toInt_of_int64? h
    cases i
    simp only [ofInt64, Integer.mk.injEq]
    exact hval.symm
  · rintro rfl
    exact int64?_ofInt64 k

theorem Json.ofInt64_inj {k m : Int64} (h : Json.ofInt64 k = .ofInt64 m) : k = m := by
  simp only [Json.ofInt64, Json.number.injEq, Number.integer.injEq, Integer.ofInt64, Integer.mk.injEq] at h
  exact Int64.toInt_inj.mp h

theorem Integer.exists_int64 {i : Integer} (h : i.val.natAbs < 2 ^ 53) : ∃ k, i = .ofInt64 k := by
  have hsome : i.int64? = some (.ofInt i.val) := if_pos (by omega)
  exact ⟨_, int64?_eq_some.mp hsome⟩

end Counter

namespace Table

variable {name : String} {t t' : Table} {row stored : Row}

theorem insert_eq_ok :
    t.insert name row = .ok (stored, t') ↔
      (∃ key, t.keyOf? row = some key ∧ t.hasKey key = false ∧ stored = row ∧
        t' = { t with rows := t.rows ++ [row], nextKey := keyAfter t.nextKey key }) ∨
      (t.keyOf? row = none ∧ stored = row.insert t.primaryKey (.ofInt64 t.nextKey) ∧
        t' = { t with rows := t.rows ++ [stored], nextKey := t.nextKey + 1 }) := by
  unfold insert
  cases hkey : t.keyOf? row with
  | none =>
      simp only [Except.ok.injEq, Prod.mk.injEq, reduceCtorEq, false_and, exists_false, false_or, true_and]
      constructor
      · rintro ⟨rfl, rfl⟩
        exact ⟨rfl, rfl⟩
      · rintro ⟨rfl, rfl⟩
        exact ⟨rfl, rfl⟩
  | some key =>
      cases hhas : t.hasKey key with
      | true =>
          simp only [hhas, if_true, reduceCtorEq, false_iff]
          rintro (⟨key', hkey', hfalse, -⟩ | ⟨hnone, -⟩)
          · rw [← Option.some.inj hkey', hhas] at hfalse
            cases hfalse
          · exact hnone
      | false =>
          simp only [hhas, Bool.false_eq_true, if_false, Except.ok.injEq, Prod.mk.injEq]
          constructor
          · rintro ⟨rfl, rfl⟩
            exact .inl ⟨key, rfl, hhas, rfl, rfl⟩
          · rintro (⟨key', hkey', -, rfl, rfl⟩ | ⟨hnone, -⟩)
            · exact ⟨rfl, by rw [Option.some.inj hkey']⟩
            · cases hnone

/-- A row is refused if the key that it comes with is among those of the table. -/
theorem insert_refused {key : Json} (h : t.keyOf? row = some key) :
    (∃ e, t.insert name row = .error e) ↔ ∃ other ∈ t.rows, t.keyIsAmong [key] other = true := by
  have hhas : t.hasKey key = true ↔ ∃ other ∈ t.rows, t.keyIsAmong [key] other = true := by
    simp [hasKey, keyIsAmong]
  rw [← hhas, insert, h]
  cases hany : t.hasKey key <;> simp [hany]

theorem insert_appends (h : t.insert name row = .ok (stored, t')) :
    t'.primaryKey = t.primaryKey ∧ t'.rows = t.rows ++ [stored] := by
  rcases insert_eq_ok.mp h with ⟨key, -, -, rfl, rfl⟩ | ⟨-, rfl, rfl⟩
  · exact ⟨rfl, rfl⟩
  · exact ⟨rfl, rfl⟩

theorem keyAfter_ofInt64 (next k : Int64) : keyAfter next (.ofInt64 k) = max next (k + 1) := by
  have hk : (Number.integer (.ofInt64 k)).int64? = some k := Integer.int64?_ofInt64 k
  simp only [Json.ofInt64, keyAfter, hk]

theorem le_keyAfter (next : Int64) (key : Json) : next.toInt ≤ (keyAfter next key).toInt := by
  unfold keyAfter
  split
  · split
    · rw [toInt_max]
      exact Int.le_max_left _ _
    · exact Int.le_refl _
  · exact Int.le_refl _

theorem lt_keyAfter {k : Int64} (h : k ≠ .maxValue) (next : Int64) : k.toInt < (keyAfter next (.ofInt64 k)).toInt := by
  rw [keyAfter_ofInt64, toInt_max, toInt_succ h]
  omega

theorem keyOf?_assigned (t : Table) (row : Row) (k : Int64) :
    t.keyOf? (row.insert t.primaryKey (.ofInt64 k)) = some (.ofInt64 k) :=
  keyOf?_eq_some.mpr ⟨Dict.get?_insert_self _ _ _, rfl⟩

/-- A row behind the key that it came with, if it came with one. -/
abbrev Entry := Option Json × Row

/-- What a table takes of the rows that are offered to it in turn, each row as it is stored. -/
def taken (name : String) (t : Table) : List Row → List Entry
  | [] => []
  | row :: rest =>
    match t.insert name row with
    | .ok (stored, t') => (t.keyOf? row, stored) :: taken name t' rest
    | .error _ => []

/-- No stored row has the greatest key, behind which the counter would overflow. -/
def Countable (t : Table) : Prop := ∀ row ∈ t.rows, t.keyOf? row ≠ some (.ofInt64 .maxValue)

/-- Of two rows with equal keys the later had its key assigned, and the key of the earlier is no integer that a
double holds exactly. -/
def Repeats (t : Table) (a b : Entry) : Prop :=
  ∀ key key', t.keyOf? a.2 = some key → t.keyOf? b.2 = some key' → key.equal key' = true →
    b.1 = none ∧ ∀ i, key = .number (.integer i) → 2 ^ 53 ≤ i.val.natAbs

/-- What a table made by insertions alone keeps of the rows it has taken. -/
structure Accounts (t : Table) (entries : List Entry) : Prop where
  rows : t.rows = entries.map Prod.snd
  present : ∀ row ∈ t.rows, (t.keyOf? row).isSome
  behind : t.Countable → ∀ row ∈ t.rows, ∀ k, t.keyOf? row = some (.ofInt64 k) → k.toInt < t.nextKey.toInt
  repeats : t.Countable → entries.Pairwise t.Repeats

variable {entries : List Entry}

theorem Countable.of_append {rows : List Row} {next next' : Int64}
    (h : ({ t with rows := t.rows ++ rows, nextKey := next } : Table).Countable) :
    ({ t with nextKey := next' } : Table).Countable :=
  fun row hrow => h row (List.mem_append_left rows hrow)

theorem Accounts.not_equal_next (h : t.Accounts entries) (hcount : t.Countable) {row : Row} (hrow : row ∈ t.rows)
    {i : Integer} (hkey : t.keyOf? row = some (.number (.integer i))) (hsmall : i.val.natAbs < 2 ^ 53) :
    (Json.number (.integer i)).equal (.ofInt64 t.nextKey) = false := by
  obtain ⟨k, rfl⟩ := Integer.exists_int64 hsmall
  have hlt := h.behind hcount row hrow k hkey
  have hne : Integer.ofInt64 k ≠ .ofInt64 t.nextKey := by
    intro heq
    have hval : k.toInt = t.nextKey.toInt := congrArg Integer.val heq
    omega
  exact (Json.equal_integer hsmall).trans (decide_eq_false hne)

theorem Accounts.insert_given (h : t.Accounts entries) {key : Json} (hkey : t.keyOf? row = some key)
    (hnew : t.hasKey key = false) :
    ({ t with rows := t.rows ++ [row], nextKey := keyAfter t.nextKey key } : Table).Accounts
      (entries ++ [(some key, row)]) where
  rows := by rw [List.map_append, h.rows]; rfl
  present := by
    intro r hr
    rcases List.mem_append.mp hr with hr | hr
    · exact h.present r hr
    · rw [List.mem_singleton.mp hr]
      exact Option.isSome_iff_exists.mpr ⟨key, hkey⟩
  behind := by
    intro hcount r hr k hk
    have hnext := le_keyAfter t.nextKey key
    rcases List.mem_append.mp hr with hold | hlast
    · have hlt := h.behind (Countable.of_append hcount) r hold k hk
      exact Int.lt_of_lt_of_le hlt hnext
    · rw [List.mem_singleton.mp hlast] at hk
      obtain rfl := Option.some.inj (hkey.symm.trans hk)
      have hmax : k ≠ .maxValue := by
        rintro rfl
        exact hcount row (List.mem_append_right _ (List.mem_singleton_self row)) hkey
      exact lt_keyAfter hmax t.nextKey
  repeats := by
    intro hcount
    refine List.pairwise_append.mpr ⟨h.repeats (Countable.of_append hcount), List.pairwise_singleton _ _, ?_⟩
    intro a ha b hb stored' key' hstored hkey' hequal
    rw [List.mem_singleton.mp hb] at hkey'
    obtain rfl := Option.some.inj (hkey.symm.trans hkey')
    have hmem : a.2 ∈ t.rows := h.rows ▸ List.mem_map_of_mem ha
    have hget := (keyOf?_eq_some.mp hstored).1
    -- A key that is equal to one of the table is refused, so this pair is impossible.
    have hhas : t.hasKey key = true := by
      rw [hasKey, List.any_eq_true]
      refine ⟨a.2, hmem, ?_⟩
      rw [show a.2.get? t.primaryKey = some stored' from hget]
      exact hequal
    rw [hnew] at hhas
    cases hhas

theorem Accounts.insert_assigned (h : t.Accounts entries) (row : Row) :
    ({ t with rows := t.rows ++ [row.insert t.primaryKey (.ofInt64 t.nextKey)], nextKey := t.nextKey + 1 } :
      Table).Accounts (entries ++ [(none, row.insert t.primaryKey (.ofInt64 t.nextKey))]) := by
  have hassigned := t.keyOf?_assigned row t.nextKey
  refine ⟨?_, ?_, ?_, ?_⟩
  · rw [List.map_append, ← h.rows]
    rfl
  · intro r hr
    rcases List.mem_append.mp hr with hr | hr
    · exact h.present r hr
    · rw [List.mem_singleton.mp hr]
      exact Option.isSome_iff_exists.mpr ⟨_, hassigned⟩
  · intro hcount r hr k hk
    have hmax : t.nextKey ≠ .maxValue := by
      intro heq
      refine hcount _ (List.mem_append_right _ (List.mem_singleton_self _)) ?_
      rw [← heq]
      exact hassigned
    show k.toInt < (t.nextKey + 1).toInt
    rw [toInt_succ hmax]
    rcases List.mem_append.mp hr with hold | hlast
    · have hlt := h.behind (Countable.of_append hcount) r hold k hk
      omega
    · rw [List.mem_singleton.mp hlast] at hk
      obtain rfl := Json.ofInt64_inj (Option.some.inj (hassigned.symm.trans hk))
      omega
  · intro hcount
    refine List.pairwise_append.mpr ⟨h.repeats (Countable.of_append hcount), List.pairwise_singleton _ _, ?_⟩
    intro a ha b hb key key' hkey hkey' hequal
    obtain rfl := List.mem_singleton.mp hb
    obtain rfl := Option.some.inj (hassigned.symm.trans hkey')
    refine ⟨rfl, fun i hi => Nat.le_of_not_lt fun hsmall => ?_⟩
    have hmem : a.2 ∈ t.rows := h.rows ▸ List.mem_map_of_mem ha
    have hne := h.not_equal_next (Countable.of_append hcount) hmem (hi ▸ hkey) hsmall
    rw [← hi, hequal] at hne
    cases hne

theorem Accounts.insert (h : t.Accounts entries) (hinsert : t.insert name row = .ok (stored, t')) :
    t'.Accounts (entries ++ [(t.keyOf? row, stored)]) := by
  rcases insert_eq_ok.mp hinsert with ⟨key, hkey, hnew, rfl, rfl⟩ | ⟨hnone, rfl, rfl⟩
  · rw [hkey]
    exact h.insert_given hkey hnew
  · rw [hnone]
    exact h.insert_assigned row

theorem Accounts.insertEach (h : t.Accounts entries) (rows : List Row) :
    (t.insertEach name rows).2.Accounts (entries ++ t.taken name rows) := by
  induction rows generalizing t entries with
  | nil => simpa [Table.insertEach, taken] using h
  | cons row rest ih =>
      unfold Table.insertEach taken
      cases hinsert : t.insert name row with
      | error e => simpa using h
      | ok r =>
          obtain ⟨stored, t'⟩ := r
          have hrest := ih (h.insert hinsert)
          rwa [List.append_assoc] at hrest

theorem Accounts.keyed (h : t.Accounts entries)
    (hsmall : ∀ row ∈ t.rows, ∃ i, t.keyOf? row = some (.number (.integer i)) ∧ i.val.natAbs < 2 ^ 53) : t.Keyed := by
  have hcount : t.Countable := by
    intro row hrow hmax
    obtain ⟨i, hi, hlt⟩ := hsmall row hrow
    obtain rfl := Number.integer.inj (Json.number.inj (Option.some.inj (hi.symm.trans hmax)))
    revert hlt
    decide
  refine ⟨h.present, ?_⟩
  rw [List.pairwise_filterMap, h.rows, List.pairwise_map]
  refine (h.repeats hcount).imp_of_mem fun {a b} ha _ hrepeats key hkey key' hkey' => ?_
  obtain ⟨i, hi, hlt⟩ := hsmall a.2 (h.rows ▸ List.mem_map_of_mem ha)
  obtain rfl := Option.some.inj (hi.symm.trans hkey)
  cases hequal : (Json.number (.integer i)).equal key' with
  | false => rfl
  | true =>
      have hlarge := (hrepeats _ key' hkey hkey' hequal).2 i rfl
      omega

end Table

end RowQuery
