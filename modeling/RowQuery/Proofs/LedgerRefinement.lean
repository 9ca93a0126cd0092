import RowQuery.Proofs.Insertion
import RowQuery.Proofs.Ledger

namespace RowQuery

namespace Integer

theorem eq_iff_val {i j : Integer} : i = j ↔ i.val = j.val := by
  cases i
  cases j
  simp

end Integer

namespace Ledger

variable {l : Ledger} {k : Int}

theorem val_ofInt64_ofInt (h : k.natAbs < 2 ^ 53) : (Integer.ofInt64 (.ofInt k)).val = k :=
  Int64.toInt_ofInt_of_le (by omega) (by omega)

theorem keyValue_val {i : Integer} (h : i.val.natAbs < 2 ^ 53) : keyValue i.val = i.json := by
  have hsame : Integer.ofInt64 (.ofInt i.val) = i := Integer.eq_iff_val.mpr (val_ofInt64_ofInt h)
  rw [keyValue, Json.ofInt64, hsame, Integer.json]

theorem equal_keyValue (h : k.natAbs < 2 ^ 53) (i : Integer) : (keyValue k).equal i.json = decide (k = i.val) := by
  have hval := val_ofInt64_ofInt h
  refine (Json.equal_integer (hval.symm ▸ h)).trans ?_
  rw [decide_eq_decide, Integer.eq_iff_val, hval]

theorem ne_of_get? (h : l.get? k = none) {e : Int × Row} (he : e ∈ l.entries) : e.1 ≠ k := by
  intro heq
  have hne := List.lookup_eq_none_iff.mp h e he
  rw [heq, bne_self_eq_false] at hne
  cases hne

theorem exists_split {row : Row} (h : l.get? k = some row) :
    ∃ before rest, l.entries = before ++ (k, row) :: rest ∧ (∀ e ∈ before, e.1 ≠ k) ∧ ∀ e ∈ rest, e.1 ≠ k := by
  obtain ⟨before, rest, hentries, hbefore⟩ := List.lookup_eq_some_iff.mp h
  have hdistinct := l.distinct
  rw [hentries, List.map_append, List.nodup_append] at hdistinct
  obtain ⟨-, hrest, -⟩ := hdistinct
  refine ⟨before, rest, hentries, fun e he heq => ?_, fun e he heq => ?_⟩
  · simpa [heq] using hbefore e he
  · have hmem : e.1 ∈ rest.map Prod.fst := List.mem_map_of_mem he
    exact (List.nodup_cons.mp hrest).1 (heq ▸ hmem)

theorem mem_of_get? {row : Row} (h : l.get? k = some row) : (k, row) ∈ l.entries := by
  obtain ⟨before, rest, hentries, -⟩ := exists_split h
  rw [hentries]
  exact List.mem_append_right before List.mem_cons_self

theorem filter_of_ne {entries : List (Int × Row)} (h : ∀ e ∈ entries, e.1 ≠ k) :
    (entries.filter fun e => e.1 = k) = [] :=
  List.filter_eq_nil_iff.mpr fun e he => by simpa using h e he

theorem filter_entries (l : Ledger) (k : Int) :
    (l.entries.filter fun e => e.1 = k) = (l.get? k).toList.map (Prod.mk k) := by
  cases hget : l.get? k with
  | none => exact filter_of_ne fun e he => ne_of_get? hget he
  | some row =>
      obtain ⟨before, rest, hentries, hbefore, hrest⟩ := exists_split hget
      rw [hentries, List.filter_append, filter_of_ne hbefore, List.filter_cons_of_pos (by simp), filter_of_ne hrest]
      rfl

theorem count_keys (l : Ledger) (k : Int) : l.keys.count k = (l.get? k).toList.length := by
  have hfilter := congrArg List.length (filter_entries l k)
  rw [List.length_map, ← List.countP_eq_length_filter] at hfilter
  rw [← hfilter, keys, List.count, List.countP_map]
  exact List.countP_congr fun e _ => by simp

theorem Takes.missing_or_given {m : Metadata} {row : Row} (h : l.Takes m row) :
    ((row.get? m.primaryKey = none ∨ row.get? m.primaryKey = some .null) ∧ l.next.natAbs < 2 ^ 53) ∨
    ∃ i : Integer, row.get? m.primaryKey = some i.json ∧ i.val.natAbs < 2 ^ 53 := by
  unfold Takes at h
  split at h
  case h_1 hkey => exact .inl ⟨.inl hkey, h⟩
  case h_2 hkey => exact .inl ⟨.inr hkey, h⟩
  case h_3 i hkey => exact .inr ⟨i, hkey, h⟩
  case h_4 => exact h.elim

theorem insert_of_missing {m : Metadata} {row : Row}
    (h : row.get? m.primaryKey = none ∨ row.get? m.primaryKey = some .null) :
    l.insert m row = .ok (row.insert m.primaryKey (keyValue l.next),
      l.add l.next (row.insert m.primaryKey (keyValue l.next)) l.next_not_mem) := by
  rcases h with h | h <;> simp [insert, h]

theorem insert_of_new {m : Metadata} {row : Row} {i : Integer} (h : row.get? m.primaryKey = some i.json)
    (hnew : i.val ∉ l.keys) : l.insert m row = .ok (row, l.add i.val row hnew) := by
  simp [insert, h, Integer.json, hnew]

theorem insert_of_old {m : Metadata} {row : Row} {i : Integer} (h : row.get? m.primaryKey = some i.json)
    (hold : i.val ∈ l.keys) : l.insert m row = .error (.duplicateKey m.table i.json) := by
  simp [insert, h, Integer.json, hold]

theorem map_adjust_of_ne {entries : List (Int × Row)} (h : ∀ e ∈ entries, e.1 ≠ k) (change : Row → Row) :
    (entries.map fun e => if e.1 = k then (k, change e.2) else e) = entries :=
  (List.map_congr_left fun e he => if_neg (h e he)).trans (List.map_id entries)

end Ledger

namespace Table

/-- The rows of a table are those of a ledger, each with its number in the key column, and the next keys agree. -/
structure Holds (t : Table) (l : Ledger) : Prop where
  rows : t.rows = l.rows
  next : t.nextKey.toInt = l.next
  keyed : ∀ e ∈ l.entries, e.2.get? t.primaryKey = some (Ledger.keyValue e.1) ∧ e.1.natAbs < 2 ^ 53

/-- The rows whose keys are among the given ones are those of a number. -/
def Picks (t : Table) (l : Ledger) (keys : List Json) (k : Int) : Prop :=
  ∀ e ∈ l.entries, t.keyIsAmong keys e.2 = decide (e.1 = k)

variable {t : Table} {l : Ledger} {k : Int} {keys : List Json}

theorem Holds.keyIsAmong (h : t.Holds l) {e : Int × Row} (he : e ∈ l.entries) (ids : List Integer) :
    t.keyIsAmong (ids.map Integer.json) e.2 = decide (e.1 ∈ ids.map Integer.val) := by
  obtain ⟨hkey, hsmall⟩ := h.keyed e he
  rw [Table.keyIsAmong, hkey, Option.any_some, List.any_map, Bool.eq_iff_iff, List.any_eq_true, decide_eq_true_eq,
    List.mem_map]
  constructor
  · rintro ⟨i, hi, heq⟩
    rw [Function.comp_apply, Ledger.equal_keyValue hsmall, decide_eq_true_eq] at heq
    exact ⟨i, hi, heq.symm⟩
  · rintro ⟨i, hi, heq⟩
    refine ⟨i, hi, ?_⟩
    rw [Function.comp_apply, Ledger.equal_keyValue hsmall, decide_eq_true_eq]
    exact heq.symm

theorem Holds.filter_rows (h : t.Holds l) (i : Integer) :
    (t.rows.filter fun row => (row.cell t.primaryKey).equal i.json) = (l.get? i.val).toList := by
  have hfilter : (l.entries.filter fun e => (Row.cell e.2 t.primaryKey).equal i.json) =
      l.entries.filter fun e => e.1 = i.val := by
    refine List.filter_congr fun e he => ?_
    obtain ⟨hkey, hsmall⟩ := h.keyed e he
    rw [Row.cell, hkey, Option.getD_some, Ledger.equal_keyValue hsmall]
  rw [h.rows, Ledger.rows, List.filter_map]
  refine (congrArg (List.map Prod.snd) hfilter).trans ?_
  rw [Ledger.filter_entries, List.map_map]
  exact List.map_id _

theorem Holds.hasKey (h : t.Holds l) (i : Integer) : t.hasKey i.json = decide (i.val ∈ l.keys) := by
  rw [Table.hasKey, h.rows, Ledger.rows, List.any_map, Bool.eq_iff_iff, List.any_eq_true, decide_eq_true_eq,
    Ledger.keys, List.mem_map]
  refine exists_congr fun e => and_congr_right fun he => ?_
  obtain ⟨hkey, hsmall⟩ := h.keyed e he
  rw [Function.comp_apply, hkey, Option.any_some, Ledger.equal_keyValue hsmall, decide_eq_true_eq]

theorem Holds.adjust (h : t.Holds l) {change : Row → Row}
    (hchange : ∀ row, (change row).get? t.primaryKey = row.get? t.primaryKey) (k : Int) :
    ({ t with rows := (l.adjust k change).rows } : Table).Holds (l.adjust k change) where
  rows := rfl
  next := h.next
  keyed := by
    intro e he
    obtain ⟨old, hold, rfl⟩ := List.mem_map.mp he
    by_cases hk : old.1 = k
    · rw [if_pos hk]
      refine ⟨(hchange old.2).trans ?_, hk ▸ (h.keyed old hold).2⟩
      rw [← hk]
      exact (h.keyed old hold).1
    · rw [if_neg hk]
      exact h.keyed old hold

theorem Holds.erase (h : t.Holds l) (ks : List Int) :
    ({ t with rows := (l.erase ks).rows } : Table).Holds (l.erase ks) where
  rows := rfl
  next := h.next
  keyed := fun e he => h.keyed e (List.mem_of_mem_filter he)

theorem Holds.add (h : t.Holds l) {row : Row} (hnew : k ∉ l.keys)
    (hkey : row.get? t.primaryKey = some (Ledger.keyValue k)) (hsmall : k.natAbs < 2 ^ 53) {next : Int64}
    (hnext : next.toInt = max l.next (k + 1)) :
    ({ t with rows := t.rows ++ [row], nextKey := next } : Table).Holds (l.add k row hnew) where
  rows := by
    show t.rows ++ [row] = (l.entries ++ [(k, row)]).map Prod.snd
    rw [h.rows, List.map_append]
    rfl
  next := hnext
  keyed := by
    intro e he
    rcases List.mem_append.mp he with hold | hlast
    · exact h.keyed e hold
    · rw [List.mem_singleton.mp hlast]
      exact ⟨hkey, hsmall⟩

theorem Holds.countP (h : t.Holds l) (hpicks : t.Picks l keys k) :
    t.rows.countP (t.keyIsAmong keys) = l.keys.count k := by
  rw [h.rows, Ledger.rows, Ledger.keys, List.count, List.countP_map, List.countP_map]
  refine List.countP_congr fun e he => ?_
  rw [Function.comp_apply, hpicks e he, Function.comp_apply]
  simp

theorem Holds.update (h : t.Holds l) (hpicks : t.Picks l keys k) (data : Row) :
    t.update keys data = (l.keys.count k, { t with rows := (l.adjust k (·.merge data)).rows }) := by
  have hrows : (t.rows.map fun row => if t.keyIsAmong keys row then row.merge data else row) =
      (l.adjust k (·.merge data)).rows := by
    rw [h.rows, Ledger.rows, Ledger.rows, Ledger.adjust, List.map_map, List.map_map]
    refine List.map_congr_left fun e he => ?_
    by_cases hk : e.1 = k <;> simp [hpicks e he, hk]
  rw [Table.update, hrows, h.countP hpicks]

theorem Holds.delete (h : t.Holds l) {ks : List Int}
    (hpicks : ∀ e ∈ l.entries, t.keyIsAmong keys e.2 = decide (e.1 ∈ ks)) :
    t.delete keys = (l.keys.countP (· ∈ ks), { t with rows := (l.erase ks).rows }) := by
  have hcount : t.rows.countP (t.keyIsAmong keys) = l.keys.countP (· ∈ ks) := by
    rw [h.rows, Ledger.rows, Ledger.keys, List.countP_map, List.countP_map]
    exact List.countP_congr fun e he => by rw [Function.comp_apply, hpicks e he, Function.comp_apply]
  have hrows : (t.rows.filter fun row => !t.keyIsAmong keys row) = (l.erase ks).rows := by
    rw [h.rows, Ledger.rows, Ledger.rows, Ledger.erase, List.filter_map]
    refine congrArg (List.map Prod.snd) (List.filter_congr fun e he => ?_)
    rw [Function.comp_apply, hpicks e he]
    simp
  rw [Table.delete, hrows, hcount]

theorem incrementEach_append {name column : String} {amount : Int64} {test : Row → Bool} {before : List Row}
    (h : ∀ row ∈ before, test row = false) (rows : List Row) :
    incrementEach name column amount test (before ++ rows) =
      ((incrementEach name column amount test rows).1, before ++ (incrementEach name column amount test rows).2) := by
  induction before with
  | nil => rfl
  | cons row rest ih =>
      obtain ⟨hrow, hrest⟩ := List.forall_mem_cons.mp h
      simp [incrementEach, hrow, ih hrest]

theorem incrementEach_of_none {name column : String} {amount : Int64} {test : Row → Bool} {rows : List Row}
    (h : ∀ row ∈ rows, test row = false) : incrementEach name column amount test rows = (.ok 0, rows) := by
  simpa [incrementEach] using incrementEach_append h []

theorem Holds.increment (h : t.Holds l) (hpicks : t.Picks l keys k) (name column : String) (amount : Int64) :
    t.increment name keys column amount =
      match l.get? k with
      | some row =>
        match incremented name column (row.get? column) amount with
        | .ok a => (.ok 1, { t with rows := (l.adjust k (·.insert column a)).rows })
        | .error e => (.error e, t)
      | none => (.ok 0, t) := by
  have hpasses : ∀ entries : List (Int × Row), (∀ e ∈ entries, e ∈ l.entries) → (∀ e ∈ entries, e.1 ≠ k) →
      ∀ row ∈ entries.map Prod.snd, t.keyIsAmong keys row = false := by
    intro entries hsub hne row hrow
    obtain ⟨e, he, rfl⟩ := List.mem_map.mp hrow
    rw [hpicks e (hsub e he), decide_eq_false (hne e he)]
  cases hget : l.get? k with
  | none =>
      have hnone := hpasses l.entries (fun _ he => he) fun e he => Ledger.ne_of_get? hget he
      rw [← Ledger.rows, ← h.rows] at hnone
      rw [Table.increment, incrementEach_of_none hnone]
  | some row =>
      obtain ⟨before, rest, hentries, hbefore, hrest⟩ := Ledger.exists_split hget
      have hrow : t.keyIsAmong keys row = true := (hpicks _ (Ledger.mem_of_get? hget)).trans (decide_eq_true rfl)
      have hfirst := hpasses before (fun e he => hentries ▸ List.mem_append_left _ he) hbefore
      have hlast := hpasses rest
        (fun e he => hentries ▸ List.mem_append_right _ (List.mem_cons_of_mem _ he)) hrest
      have hrows : t.rows = before.map Prod.snd ++ row :: rest.map Prod.snd := by
        rw [h.rows, Ledger.rows, hentries, List.map_append, List.map_cons]
      have hadjust : ∀ change : Row → Row,
          (l.adjust k change).rows = before.map Prod.snd ++ change row :: rest.map Prod.snd := by
        intro change
        show (l.entries.map fun e => if e.1 = k then (k, change e.2) else e).map Prod.snd = _
        rw [hentries, List.map_append, List.map_cons, Ledger.map_adjust_of_ne hbefore,
          Ledger.map_adjust_of_ne hrest, if_pos rfl, List.map_append, List.map_cons]
      rw [Table.increment, hrows, incrementEach_append hfirst]
      cases hsum : incremented name column (row.get? column) amount with
      | error e => simp [incrementEach, hrow, hsum, ← hrows]
      | ok a => simp [incrementEach, hrow, hsum, incrementEach_of_none hlast, hadjust, Except.map]

theorem Holds.keyValue_next (h : t.Holds l) : Ledger.keyValue l.next = .ofInt64 t.nextKey := by
  rw [Ledger.keyValue, ← h.next, Int64.ofInt_toInt]

theorem Holds.insert_assigned (h : t.Holds l) (hsmall : l.next.natAbs < 2 ^ 53) (row : Row) :
    ({ t with rows := t.rows ++ [row.insert t.primaryKey (Ledger.keyValue l.next)], nextKey := t.nextKey + 1 } :
      Table).Holds (l.add l.next (row.insert t.primaryKey (Ledger.keyValue l.next)) l.next_not_mem) := by
  have hmax : t.nextKey ≠ .maxValue := by
    intro heq
    have hnext := h.next
    rw [heq, Int64.toInt_maxValue] at hnext
    omega
  apply h.add l.next_not_mem _ hsmall
  · rw [toInt_succ hmax, h.next]
    omega
  · exact Dict.get?_insert_self _ _ _

theorem Holds.insert_given (h : t.Holds l) {i : Integer} (hnew : i.val ∉ l.keys)
    {row : Row} (hkey : row.get? t.primaryKey = some i.json) (hsmall : i.val.natAbs < 2 ^ 53) :
    ({ t with rows := t.rows ++ [row], nextKey := keyAfter t.nextKey i.json } : Table).Holds
      (l.add i.val row hnew) := by
  have hval := Ledger.val_ofInt64_ofInt hsmall
  have hmax : Int64.ofInt i.val ≠ .maxValue := by
    intro heq
    have hlarge : i.val = Int64.maxValue.toInt := heq ▸ hval.symm
    rw [Int64.toInt_maxValue] at hlarge
    omega
  refine h.add hnew (hkey.trans (congrArg some (Ledger.keyValue_val hsmall).symm)) hsmall ?_
  rw [← Ledger.keyValue_val hsmall, Ledger.keyValue, keyAfter_ofInt64, toInt_max, toInt_succ hmax, h.next]
  exact congrArg (fun k => max l.next (k + 1)) hval

/-- A row goes into the table as it goes into the ledger, or is refused by both. -/
theorem Holds.insert {m : Metadata} (h : t.Holds l) (hpk : t.primaryKey = m.primaryKey) {row : Row}
    (hrow : l.Takes m row) :
    (∃ e, l.insert m row = .error e ∧ t.insert m.table row = .error e) ∨
    ∃ stored l' t', l.insert m row = .ok (stored, l') ∧ t.insert m.table row = .ok (stored, t') ∧
      t'.primaryKey = m.primaryKey ∧ t'.Holds l' := by
  rcases hrow.missing_or_given with ⟨hmissing, hsmall⟩ | ⟨i, hkey, hsmall⟩
  · have hnone : t.keyOf? row = none := by
      rw [keyOf?, hpk]
      rcases hmissing with hmissing | hmissing <;> rw [hmissing] <;> rfl
    refine .inr ⟨_, _, _, Ledger.insert_of_missing hmissing, insert_eq_ok.mpr (.inr ⟨hnone, ?_, rfl⟩), hpk, ?_⟩
    · rw [hpk, h.keyValue_next]
    · rw [← hpk]
      exact h.insert_assigned hsmall row
  · have hsome : t.keyOf? row = some i.json := by
      rw [keyOf?, hpk, hkey]
      rfl
    have hhas := h.hasKey i
    by_cases hold : i.val ∈ l.keys
    · refine .inl ⟨_, Ledger.insert_of_old hkey hold, ?_⟩
      simp [Table.insert, hsome, hhas, hold]
    · refine .inr ⟨_, _, _, Ledger.insert_of_new hkey hold, insert_eq_ok.mpr (.inl ⟨_, hsome, ?_, rfl, rfl⟩), hpk, ?_⟩
      · rw [hhas, decide_eq_false hold]
      · exact h.insert_given hold (hpk ▸ hkey) hsmall

end Table

end RowQuery
