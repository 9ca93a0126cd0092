import Mathlib.Data.List.Pairwise
import RowQuery.Proofs.Keys
import RowQuery.Proofs.SingleTable
import RowQuery.Proofs.Tables
import RowQuery.Repository.Basic

namespace RowQuery

section Counting

variable {α β : Type} {l : List α}

theorem countP_le_one_iff {p : α → Bool} :
    l.countP p ≤ 1 ↔ l.Pairwise fun a b => ¬(p a = true ∧ p b = true) := by
  induction l with
  | nil => simp
  | cons a rest ih =>
      rw [List.pairwise_cons, ← ih]
      by_cases ha : p a = true
      · rw [List.countP_cons_of_pos ha]
        have hrest : rest.countP p = 0 ↔ ∀ b ∈ rest, ¬(p a = true ∧ p b = true) := by simp [ha]
        rw [← hrest]
        omega
      · simp [List.countP_cons_of_neg ha, ha]

theorem eq_of_countP_le_one {p : α → Bool} (h : l.countP p ≤ 1) {a b : α} (ha : a ∈ l) (hb : b ∈ l)
    (hpa : p a = true) (hpb : p b = true) : a = b := by
  have : Std.Symm fun a b => ¬(p a = true ∧ p b = true) := ⟨fun _ _ hnot hboth => hnot hboth.symm⟩
  by_contra hne
  exact (countP_le_one_iff.mp h).forall ha hb hne ⟨hpa, hpb⟩

theorem countP_or_le (p q : α → Bool) : l.countP (fun a => p a || q a) ≤ l.countP p + l.countP q := by
  induction l with
  | nil => simp
  | cons a rest ih =>
      simp only [List.countP_cons]
      cases p a <;> cases q a <;> simp <;> omega

/-- If at most one item fits each choice, no more items fit some choice than there are choices. -/
theorem countP_any_le {fits : α → β → Bool} {choices : List β} (h : ∀ b ∈ choices, l.countP (fits · b) ≤ 1) :
    l.countP (fun a => choices.any (fits a)) ≤ choices.length := by
  induction choices with
  | nil => simp
  | cons b rest ih =>
      obtain ⟨hb, hrest⟩ := List.forall_mem_cons.mp h
      calc l.countP (fun a => (b :: rest).any (fits a))
          ≤ l.countP (fits · b) + l.countP (fun a => rest.any (fits a)) := countP_or_le _ _
        _ ≤ 1 + rest.length := Nat.add_le_add hb (ih hrest)
        _ = (b :: rest).length := by rw [List.length_cons, Nat.add_comm]

end Counting

namespace Table

variable {t : Table}

def keys (t : Table) : List Json := t.rows.filterMap t.keyOf?

def without (t : Table) (test : Row → Bool) : Table := { t with rows := t.rows.filter fun row => !test row }

/-- A value that is no text can be equal to several text keys, although no two of them are equal. -/
def Ambiguous (t : Table) (id : Json) : Prop :=
  id.text? = none ∧ 1 < t.keys.countP fun key => key.text?.isSome && key.equal id

instance (t : Table) (id : Json) : Decidable (t.Ambiguous id) := inferInstanceAs (Decidable (_ ∧ _))

theorem keyIsAmong_eq_any (ids : List Json) (row : Row) :
    t.keyIsAmong ids row = (t.keyOf? row).any fun key => ids.any key.equal := by
  rw [keyIsAmong, keyOf?]
  cases row.get? t.primaryKey with
  | none => rfl
  | some key => cases key <;> simp [Json.isNull, Option.filter]

theorem countP_keyIsAmong (ids : List Json) :
    t.rows.countP (t.keyIsAmong ids) = t.keys.countP fun key => ids.any key.equal := by
  rw [keys, List.countP_filterMap]
  refine List.countP_congr fun row _ => ?_
  rw [keyIsAmong_eq_any]
  cases t.keyOf? row <;> simp

/-- No two keys are equal to the same value, unless they are texts and it is none. -/
theorem Keyed.countP_equal_le_one (h : t.Keyed) {id : Json} :
    t.keys.countP (·.equal id) ≤ 1 ↔ ¬t.Ambiguous id := by
  constructor
  · rintro hone ⟨-, htexts⟩
    have hmono : t.keys.countP (fun key => key.text?.isSome && key.equal id) ≤ t.keys.countP (·.equal id) :=
      List.countP_mono_left fun key _ hkey => (Bool.and_eq_true_iff.mp hkey).2
    omega
  · intro hclear
    rw [countP_le_one_iff]
    by_cases hid : id.text? = none
    · have htexts := countP_le_one_iff.mp (Nat.not_lt.mp fun hmany => hclear ⟨hid, hmany⟩)
      refine (h.distinct.and htexts).imp ?_
      rintro a b ⟨hne, hone⟩ ⟨ha, hb⟩
      obtain ⟨hat, hbt, -⟩ := Json.texts_of_both ha hb hne
      exact hone ⟨by simp [hat, ha], by simp [hbt, hb]⟩
    · refine h.distinct.imp ?_
      rintro a b hne ⟨ha, hb⟩
      exact hid (Json.texts_of_both ha hb hne).2.2

/-- Among the keys of some rows are those of no other row. -/
theorem Keyed.keyIsAmong_cells (h : t.Keyed) {test : Row → Bool} {row : Row} (hrow : row ∈ t.rows) :
    t.keyIsAmong ((t.rows.filter test).map (·.cell t.primaryKey)) row = test row := by
  obtain ⟨key, hkey, hnull⟩ := h.key_of_mem hrow
  rw [keyIsAmong, hkey, Option.any_some, Bool.eq_iff_iff, List.any_map, List.any_eq_true]
  constructor
  · rintro ⟨other, hother, hequal⟩
    obtain ⟨hmem, hpass⟩ := List.mem_filter.mp hother
    obtain ⟨key', hkey', hnull'⟩ := h.key_of_mem hmem
    obtain ⟨i, hi⟩ := List.mem_iff_getElem?.mp hrow
    obtain ⟨j, hj⟩ := List.mem_iff_getElem?.mp hmem
    have hcell : other.cell t.primaryKey = key' := by rw [Row.cell, hkey', Option.getD_some]
    have hplace : i = j := h.place_unique hi hj (keyOf?_eq_some.mpr ⟨hkey, hnull⟩)
      (keyOf?_eq_some.mpr ⟨hkey', hnull'⟩) (hcell ▸ hequal)
    obtain rfl : row = other := Option.some.inj (hi.symm.trans (hplace ▸ hj))
    exact hpass
  · intro hpass
    refine ⟨row, List.mem_filter.mpr ⟨hrow, hpass⟩, ?_⟩
    simp only [Function.comp, Row.cell, hkey, Option.getD_some]
    exact Json.equal_self hnull

theorem without_of_none {test : Row → Bool} (h : t.rows.countP test = 0) : t.without test = t := by
  have hrows : t.rows.filter (fun row => !test row) = t.rows :=
    List.filter_eq_self.mpr fun row hrow => by simpa using List.countP_eq_zero.mp h row hrow
  rw [without, hrows]

theorem delete_of_test {ids : List Json} {test : Row → Bool} (h : ∀ row ∈ t.rows, t.keyIsAmong ids row = test row) :
    t.delete ids = (t.rows.countP test, t.without test) := by
  have hcount : t.rows.countP (t.keyIsAmong ids) = t.rows.countP test :=
    List.countP_congr fun row hrow => by rw [h row hrow]
  have hrows : (t.rows.filter fun row => !t.keyIsAmong ids row) = t.rows.filter fun row => !test row :=
    List.filter_congr fun row hrow => by rw [h row hrow]
  rw [delete, without, hcount, hrows]

end Table

namespace Repository

variable {r : Repository} {s : Store} {t : Table} {id : Json}

/-- Whether a lookup by key takes a row to have the key that is asked for. -/
def names (r : Repository) (id : Json) (row : Row) : Bool :=
  ((Tuple.ofRow r.metadata.table row).resolve r.metadata.primaryKey).equal id

theorem names_of_plain (hkey : t.primaryKey = r.metadata.primaryKey) (hplain : '.' ∉ r.metadata.primaryKey.toList)
    (id : Json) : r.names id = t.keyIsAmong [id] := by
  funext row
  rw [names, Tuple.resolve_ofRow hplain, Row.cell, Table.keyIsAmong, hkey]
  cases row.get? r.metadata.primaryKey <;> simp

theorem first_named (ht : s.table r.metadata.table = .ok t) (hid : id.isNull = false) :
    s.first (r.byKey id) = .ok (t.rows.find? (r.names id)) := by
  have htuples := Store.selectTuples_resolved (q := (r.byKey id).limit 1) rfl rfl rfl ht hid
  have hwindow : ((r.byKey id).limit 1).pagination = some { limit := some 1 } := rfl
  have hproject : (Tuple.project · ((r.byKey id).limit 1)) ∘ Tuple.ofRow ((r.byKey id).limit 1).table =
      fun row => row :=
    funext (Tuple.project_ofRow (List.cons_ne_nil _ _) (List.forall_mem_singleton.mpr (by decide)) r.metadata.table)
  rw [hwindow, Store.paginated_limit, ← List.map_take] at htuples
  rw [Store.first, Store.get_of_noLoads s rfl, htuples]
  refine congrArg Except.ok ?_
  rw [List.map_map, hproject, List.map_id']
  exact (List.head?_take ..).trans List.head?_filter

theorem findById_named (ht : s.table r.metadata.table = .ok t) (hkey : t.primaryKey = r.metadata.primaryKey)
    (hid : id.isNull = false) : r.findById s id [] = r.found id (.ok (t.rows.find? (r.names id))) := by
  have hfind : s.find (r.query.select []) id = s.first (r.byKey id) := by
    rw [byKey, ← hkey]
    exact Store.find_eq (q := r.query) ht id
  rw [findById, hfind, first_named ht hid]

theorem changeMatched_named {α : Type} (ht : s.table r.metadata.table = .ok t) (hid : id.isNull = false)
    (change : Table → List Json → Except StoreError α × Table) :
    s.changeMatched (r.byKey id) change =
      ((change t ((t.rows.filter (r.names id)).map (·.cell t.primaryKey))).1,
        s.putTable r.metadata.table (change t ((t.rows.filter (r.names id)).map (·.cell t.primaryKey))).2) := by
  have htuples := Store.selectTuples_resolved (q := r.byKey id) rfl rfl rfl ht hid
  exact Store.changeMatched_of_keys (q := r.byKey id) ht (Store.matchedKeys_ofRow ht htuples) change

theorem delete_named (ht : s.table r.metadata.table = .ok t) (hkeyed : t.Keyed) (hid : id.isNull = false) :
    s.delete (r.byKey id) =
      (.ok (t.rows.countP (r.names id)), s.putTable r.metadata.table (t.without (r.names id))) := by
  rw [Store.delete, changeMatched_named ht hid]
  exact congrArg (fun c => (Except.ok c.1, s.putTable r.metadata.table c.2))
    (Table.delete_of_test fun row hrow => hkeyed.keyIsAmong_cells hrow)

theorem delete_single (hsingle : ∀ ids, id ≠ .array ids) :
    r.delete s id =
      match r.findById s id [] with
      | .ok _ => delete.lift (s.delete (r.byKey id))
      | .error e => (.error e, s) := by
  cases id with
  | array ids => exact absurd rfl (hsingle ids)
  | _ => rfl

theorem delete_single_of_keyed (ht : s.table r.metadata.table = .ok t) (hkey : t.primaryKey = r.metadata.primaryKey)
    (hkeyed : t.Keyed) (hid : id.isNull = false) (hsingle : ∀ ids, id ≠ .array ids) :
    (r.delete s id = (.error (.notFound r.metadata.table id), s) ∧ t.rows.countP (r.names id) = 0) ∨
    (r.delete s id =
        (.ok (t.rows.countP (r.names id)), s.putTable r.metadata.table (t.without (r.names id))) ∧
      0 < t.rows.countP (r.names id)) := by
  have hfound := findById_named ht hkey hid
  cases hrow : t.rows.find? (r.names id) with
  | none =>
      refine .inl ⟨?_, List.countP_eq_zero.mpr (List.find?_eq_none.mp hrow)⟩
      rw [delete_single hsingle, hfound, hrow]
      rfl
  | some row =>
      refine .inr ⟨?_, List.countP_pos_iff.mpr ⟨row, List.mem_of_find?_eq_some hrow, List.find?_some hrow⟩⟩
      rw [delete_single hsingle, hfound, hrow, delete_named ht hkeyed hid]
      rfl

theorem delete_array (ht : s.table r.metadata.table = .ok t) (ids : List Json) :
    r.delete s (.array ids) =
      (.ok (t.rows.countP (t.keyIsAmong ids)), s.putTable r.metadata.table (t.without (t.keyIsAmong ids))) := by
  have hrun : s.destroy r.metadata.table ids =
      (.ok (t.delete ids).1, s.putTable r.metadata.table (t.delete ids).2) := Store.changeTable_of_table ht _
  rw [delete, hrun]
  rfl

/-- A deletion by one key fails and changes nothing if no row has an equal key, and otherwise removes all rows that
have one. A deletion by a list of keys removes the rows whose key is equal to one of them. These are at most as many
as the keys given, as long as no two text keys are equal to one that is no text. -/
theorem delete_removes_equal_keys (r : Repository) (s : Store) {t : Table} (ht : s.table r.metadata.table = .ok t)
    (hkey : t.primaryKey = r.metadata.primaryKey) (hkeyed : t.Keyed) :
    (∀ id, id.isNull = false → (∀ ids, id ≠ .array ids) →
      (r.delete s id = (.error (.notFound r.metadata.table id), s) ∧ t.rows.countP (r.names id) = 0) ∨
      (r.delete s id =
          (.ok (t.rows.countP (r.names id)), s.putTable r.metadata.table (t.without (r.names id))) ∧
        0 < t.rows.countP (r.names id))) ∧
    (∀ ids, r.delete s (.array ids) =
        (.ok (t.rows.countP (t.keyIsAmong ids)), s.putTable r.metadata.table (t.without (t.keyIsAmong ids))) ∧
      ((∀ id ∈ ids, ¬t.Ambiguous id) → t.rows.countP (t.keyIsAmong ids) ≤ ids.length)) ∧
    ('.' ∉ r.metadata.primaryKey.toList → ∀ id,
      r.names id = t.keyIsAmong [id] ∧ (t.rows.countP (r.names id) ≤ 1 ↔ ¬t.Ambiguous id)) := by
  refine ⟨fun id hid hsingle => delete_single_of_keyed ht hkey hkeyed hid hsingle, fun ids => ?_, fun hplain id => ?_⟩
  · refine ⟨delete_array ht ids, fun hclear => ?_⟩
    rw [Table.countP_keyIsAmong]
    exact countP_any_le fun id hid => hkeyed.countP_equal_le_one.mpr (hclear id hid)
  · have hnames := names_of_plain hkey hplain id
    refine ⟨hnames, ?_⟩
    rw [hnames, Table.countP_keyIsAmong, ← hkeyed.countP_equal_le_one]
    simp only [List.any_cons, List.any_nil, Bool.or_false]

/-- Codes of which two are texts of the same number. -/
def codeTable : Table where
  primaryKey := "id"
  rows := [.ofList [("id", .string "1")], .ofList [("id", .string "01")], .ofList [("id", .ofInt64 7)]]

def codeStore : Store where
  tables := .ofList [("codes", codeTable)]

def codes : Repository where
  metadata := ⟨"codes", "id"⟩

theorem delete_removes_equal_keys_codes :
    codeStore.table "codes" = .ok codeTable ∧ codeTable.Keyed ∧ ¬codeTable.Ambiguous (.ofInt64 7) ∧
      codes.delete codeStore (.ofInt64 7) =
        (.ok 1, codeStore.putTable "codes" (codeTable.without (codes.names (.ofInt64 7)))) := by
  have hkeyed : codeTable.Keyed := by decide
  have hclear : ¬codeTable.Ambiguous (.ofInt64 7) := by decide
  have hnamed : codeTable.rows.countP (codes.names (.ofInt64 7)) = 1 := by decide
  obtain ⟨hsingle, -, -⟩ := delete_removes_equal_keys codes codeStore (t := codeTable) rfl rfl hkeyed
  rcases hsingle (.ofInt64 7) rfl (fun _ => Json.noConfusion) with ⟨-, hnone⟩ | ⟨hdelete, -⟩
  · rw [hnamed] at hnone
    cases hnone
  · rw [hnamed] at hdelete
    exact ⟨rfl, hkeyed, hclear, hdelete⟩

/-- A number that two texts stand for takes both of them along. -/
theorem delete_can_remove_several :
    ¬∀ (r : Repository) (s : Store) (t : Table) (id : Json), s.table r.metadata.table = .ok t →
      t.primaryKey = r.metadata.primaryKey → t.Keyed → id.isNull = false → (∀ ids, id ≠ .array ids) →
      r.delete s id = (.error (.notFound r.metadata.table id), s) ∨ ∃ after, r.delete s id = (.ok 1, after) := by
  intro hdeletes
  have hkeyed : codeTable.Keyed := by decide
  have htwo : (codes.delete codeStore (.ofInt64 1)).1.toOption = some 2 := by decide
  rcases hdeletes codes codeStore codeTable (.ofInt64 1) rfl rfl hkeyed rfl (fun _ => Json.noConfusion) with
    hnone | ⟨after, hone⟩
  · rw [hnone] at htwo
    cases htwo
  · rw [hone] at htwo
    cases htwo

end Repository

end RowQuery
