import RowQuery.Proofs.KeyColumn
import RowQuery.Proofs.KeyedWrites

namespace RowQuery

namespace Json

/-- A value that stands for 1 is one that is equal to the integer 1. -/
theorem isOne_eq_equal (a : Json) : a.isOne = a.equal (.ofInt64 1) := by
  cases a with
  | null | array | object | bool | number => rfl
  | string s =>
      simp only [isOne, equal, compare?, ofInt64, number?]
      cases Double.ofText? (Text.trim s.toList) <;> rfl

end Json

namespace Table

variable {t : Table} {id : Json} {i : Nat} {row : Row} {field : String}

theorem withRowAt_withRowAt (t : Table) (i : Nat) (row other : Row) :
    (t.withRowAt i row).withRowAt i other = t.withRowAt i other := by
  simp only [withRowAt, List.set_set]

theorem Keyed.withField (h : t.Keyed) (hrow : t.rows[i]? = some row) (hfield : field ≠ t.primaryKey) (a : Json) :
    (t.withRowAt i (row.insert field a)).Keyed := by
  apply h.of_keyColumn
  obtain ⟨hi, rfl⟩ := List.getElem?_eq_some_iff.mp hrow
  show (t.rows.set i (t.rows[i].insert field a)).map t.keyOf? = t.rows.map t.keyOf?
  rw [List.map_set, keyOf?_insert hfield, ← List.getElem_map (f := t.keyOf?) (h := by simpa using hi),
    List.set_getElem_self]

theorem Locates.withField (h : t.Locates id i row) (hfield : field ≠ t.primaryKey) (a : Json) :
    (t.withRowAt i (row.insert field a)).Locates id i (row.insert field a) := by
  obtain ⟨hi, -⟩ := List.getElem?_eq_some_iff.mp h.found
  refine ⟨List.getElem?_set_self hi, fun j other hother => ?_⟩
  have hamong : t.keyIsAmong [id] (row.insert field a) = t.keyIsAmong [id] row := keyIsAmong_insert hfield [id] row a
  by_cases hj : i = j
  · subst hj
    obtain rfl := Option.some.inj ((List.getElem?_set_self hi).symm.trans hother)
    exact iff_of_true (hamong.trans ((h.only i row h.found).mpr rfl)) rfl
  · exact h.only j other ((List.getElem?_set_ne hj).symm.trans hother)

end Table

namespace Repository

/-- A repository's table has one row for a key. -/
structure Locates (r : Repository) (s : Store) (t : Table) (id : Json) (i : Nat) (row : Row) : Prop where
  table : s.table r.metadata.table = .ok t
  primaryKey : t.primaryKey = r.metadata.primaryKey
  plain : '.' ∉ r.metadata.primaryKey.toList
  keyed : t.Keyed
  place : t.Locates id i row

/-- The store after a field of the row at a place is set. -/
def withField (r : Repository) (s : Store) (t : Table) (i : Nat) (row : Row) (field : String) (a : Json) : Store :=
  s.putTable r.metadata.table (t.withRowAt i (row.insert field a))

/-- Sets a field of one row again and again, whether or not a call fails. -/
def updateByFieldEach (r : Repository) (s : Store) (id : Json) (field : String) :
    List (Option Json) → List (Except RepositoryError Row) × Store
  | [] => ([], s)
  | value :: rest =>
    let (answer, s) := r.updateByField s id field value
    let (answers, s) := updateByFieldEach r s id field rest
    (answer :: answers, s)

/-- What a field holds after a number of toggles: 0 and 1 in turn, and 0 first if it stood for 1 before. -/
def toggled (one : Bool) (n : Nat) : Json := if one = decide (n % 2 = 1) then .ofInt64 0 else .ofInt64 1

theorem toggled_succ (one : Bool) (n : Nat) : toggled one (n + 1) = toggled (!one) n := by
  have hparity : decide ((n + 1) % 2 = 1) = !decide (n % 2 = 1) := by
    rw [← decide_not, decide_eq_decide]
    omega
  rw [toggled, toggled, hparity]
  cases one <;> cases decide (n % 2 = 1) <;> rfl

theorem toggled_equal_one (one : Bool) : (toggled one 1).equal (.ofInt64 1) = !one := by
  revert one
  decide

variable {r : Repository} {s : Store} {t : Table} {id : Json} {i : Nat} {row : Row} {f : Field} {field : String}

theorem nextValue_of_not_given {value : Option Json} (h : ∀ a ∈ value, a.isTruthy = false) (current : Json) :
    nextValue value current = toggled (current.equal (.ofInt64 1)) 1 := by
  have hnone : value.filter Json.isTruthy = none := Option.filter_eq_none_iff.mpr (by simpa using h)
  rw [nextValue, hnone, Json.isOne_eq_equal, toggled]
  cases current.equal (.ofInt64 1) <;> rfl

theorem withField_withField (r : Repository) (s : Store) (t : Table) (i : Nat) (row : Row) (field : String)
    (a b : Json) : r.withField (r.withField s t i row field a) (t.withRowAt i (row.insert field a)) i
      (row.insert field a) field b = r.withField s t i row field b := by
  rw [withField, withField, withField, Store.putTable_putTable, Table.withRowAt_withRowAt, Dict.insert_insert]

theorem Locates.withField (h : r.Locates s t id i row) (hfield : field ≠ r.metadata.primaryKey) (a : Json) :
    r.Locates (r.withField s t i row field a) (t.withRowAt i (row.insert field a)) id i (row.insert field a) where
  table := Store.table_putTable s _ _
  primaryKey := h.primaryKey
  plain := h.plain
  keyed := h.keyed.withField h.place.found (h.primaryKey ▸ hfield) a
  place := h.place.withField (h.primaryKey ▸ hfield) a

theorem validate_toggled (f : Field) (one : Bool) (n : Nat) :
    f.validate (toggled one n) =
      if f.kind = .text then .error (.wrongKind f.name (toggled one n) .text) else .ok () := by
  obtain ⟨name, kind, nullable⟩ := f
  have hbit : toggled one n = .ofInt64 0 ∨ toggled one n = .ofInt64 1 := by
    unfold toggled
    split
    · exact .inl rfl
    · exact .inr rfl
  rcases hbit with h | h <;> rw [h] <;> cases kind <;> rfl

section Run

variable {one : Bool} {value : Option Json} {values : List (Option Json)}

/-- One call without a value toggles the field, whatever it held before. -/
theorem updateByField_toggles (h : r.Locates s t id i row) (hnamed : r.fields.Named)
    (hf : r.fields.field field = .ok f) (hkind : f.kind ≠ .text) (hone : (row.cell field).equal (.ofInt64 1) = one)
    (hvalue : ∀ a ∈ value, a.isTruthy = false) : r.updateByField s id field value =
      (.ok (row.insert field (toggled one 1)), r.withField s t i row field (toggled one 1)) := by
  refine (updateByField_eq_ok h.table h.primaryKey h.plain h.keyed h.place hnamed).mpr ?_
  rw [nextValue_of_not_given hvalue, hone]
  refine ⟨rfl, ⟨f, hf, ?_⟩, rfl⟩
  rw [validate_toggled, if_neg hkind]

theorem updateByField_text (h : r.Locates s t id i row) (hnamed : r.fields.Named) (hf : r.fields.field field = .ok f)
    (hkind : f.kind = .text) (hone : (row.cell field).equal (.ofInt64 1) = one)
    (hvalue : ∀ a ∈ value, a.isTruthy = false) : r.updateByField s id field value =
      (.error (.field (.wrongKind field (toggled one 1) .text)), s) := by
  obtain rfl := hnamed field f hf
  have hfound := findById_located h.table h.primaryKey h.plain h.place
  have hcurrent : f.get row = row.cell f.name := rfl
  have hset : f.set row (nextValue value (f.get row)) = .error (.wrongKind f.name (toggled one 1) .text) := by
    rw [nextValue_of_not_given hvalue, hcurrent, hone, Field.set, validate_toggled, if_pos hkind]
    rfl
  have hnext : r.fieldUpdate s id f.name value = .error (.field (.wrongKind f.name (toggled one 1) .text)) := by
    rw [fieldUpdate, hf, hfound]
    show (Except.mapError _ (f.set row (nextValue value (f.get row))) >>= _) = _
    rw [hset]
    rfl
  rw [updateByField, hnext]

/-- A run of calls without a value: each call toggles the field once more. -/
theorem updateByFieldEach_toggles (h : r.Locates s t id i row) (hnamed : r.fields.Named)
    (hf : r.fields.field field = .ok f) (hkind : f.kind ≠ .text) (hfield : field ≠ r.metadata.primaryKey)
    (hone : (row.cell field).equal (.ofInt64 1) = one) (hvalue : ∀ a ∈ value, a.isTruthy = false)
    (hvalues : ∀ value ∈ values, ∀ a ∈ value, a.isTruthy = false) :
    r.updateByFieldEach s id field (value :: values) =
      ((List.range (values.length + 1)).map fun n => .ok (row.insert field (toggled one (n + 1))),
        r.withField s t i row field (toggled one (values.length + 1))) := by
  have hstep := updateByField_toggles h hnamed hf hkind hone hvalue
  -- The induction is on the calls; the next one starts at the row that this one has written.
  induction values generalizing s t row value one with
  | nil =>
      rw [updateByFieldEach, hstep]
      rfl
  | cons next values ih =>
      obtain ⟨hnext, hrest⟩ := List.forall_mem_cons.mp hvalues
      have hwritten := h.withField hfield (toggled one 1)
      have hcell : Row.cell (row.insert field (toggled one 1)) field = toggled one 1 := by
        rw [Row.cell, Dict.get?_insert_self, Option.getD_some]
      have hnot : (Row.cell (row.insert field (toggled one 1)) field).equal (.ofInt64 1) = !one := by
        rw [hcell, toggled_equal_one]
      have hrun := ih hwritten hnot hnext hrest (updateByField_toggles hwritten hnamed hf hkind hnot hnext)
      rw [updateByFieldEach, hstep, List.length_cons, List.range_succ_eq_map, List.map_cons, List.map_map]
      simp only [hrun, ← toggled_succ, withField_withField, Dict.insert_insert]
      rfl

theorem updateByFieldEach_text (h : r.Locates s t id i row) (hnamed : r.fields.Named)
    (hf : r.fields.field field = .ok f) (hkind : f.kind = .text) (hone : (row.cell field).equal (.ofInt64 1) = one)
    (hvalues : ∀ value ∈ values, ∀ a ∈ value, a.isTruthy = false) : r.updateByFieldEach s id field values =
      (values.map fun _ => .error (.field (.wrongKind field (toggled one 1) .text)), s) := by
  induction values with
  | nil => rfl
  | cons value values ih =>
      obtain ⟨hvalue, hrest⟩ := List.forall_mem_cons.mp hvalues
      rw [updateByFieldEach, updateByField_text h hnamed hf hkind hone hvalue]
      simp only [ih hrest]
      rfl

end Run

/-- Setting a field of one row again and again without a value, or with one that counts as none, toggles it: every call
succeeds and writes the integer 0 or 1, in turn, and the first writes 0 if the field was equal to 1 and 1 if it was
anything else. Nothing but that field of that row is different after the run. A field of text takes no integer, so
there every call fails in the same way and the store stays as it is. -/
theorem toggling_alternates {r : Repository} {s : Store} {t : Table} {id : Json} {i : Nat} {row : Row}
    (h : r.Locates s t id i row) {fields : List Field}
    (hfields : ({} : FieldRegistry).registerAll fields = .ok r.fields) (field : String) {f : Field}
    (hf : r.fields.field field = .ok f) (hfield : field ≠ r.metadata.primaryKey)
    (values : List (Option Json)) (hsome : values ≠ [])
    (hvalues : ∀ value ∈ values, ∀ a ∈ value, a.isTruthy = false) :
    let one := (row.cell field).equal (.ofInt64 1)
    (f.kind ≠ .text → r.updateByFieldEach s id field values =
      ((List.range values.length).map fun n => .ok (row.insert field (toggled one (n + 1))),
        r.withField s t i row field (toggled one values.length))) ∧
    (f.kind = .text → r.updateByFieldEach s id field values =
      (values.map fun _ => .error (.field (.wrongKind field (toggled one 1) .text)), s)) := by
  intro one
  have hnamed : r.fields.Named := FieldRegistry.named_registerAll hfields
  refine ⟨fun hkind => ?_, fun hkind => updateByFieldEach_text h hnamed hf hkind rfl hvalues⟩
  obtain ⟨value, rest, rfl⟩ := List.exists_cons_of_ne_nil hsome
  obtain ⟨hvalue, hrest⟩ := List.forall_mem_cons.mp hvalues
  exact updateByFieldEach_toggles h hnamed hf hkind hfield rfl hvalue hrest

def titled : Field := ⟨"title", .text, true⟩

/-- Posts whose title can be set too. -/
def titledPosts : Repository where
  metadata := ⟨"posts", "post"⟩
  fields := ⟨(Dict.empty.insert "published" publishing).insert "title" titled⟩

theorem toggling_alternates_posts :
    titledPosts.updateByFieldEach postStore (.string "2") "published" [none, some .null, some (.bool false)] =
      ([.ok (draft.insert "published" (.ofInt64 1)), .ok (draft.insert "published" (.ofInt64 0)),
          .ok (draft.insert "published" (.ofInt64 1))],
        titledPosts.withField postStore postTable 1 draft "published" (.ofInt64 1)) ∧
    titledPosts.updateByFieldEach postStore (.string "2") "title" [none, some (.string "")] =
      ([.error (.field (.wrongKind "title" (.ofInt64 1) .text)),
          .error (.field (.wrongKind "title" (.ofInt64 1) .text))], postStore) := by
  have hplaces : ∀ e ∈ postTable.rows.zipIdx, postTable.keyIsAmong [.string "2"] e.1 = true ↔ e.2 = 1 := by
    decide
  have hid : postTable.Locates (.string "2") 1 draft :=
    ⟨rfl, fun j other h => hplaces (other, j) (List.mem_zipIdx_iff_getElem?.mpr h)⟩
  have hlocates : titledPosts.Locates postStore postTable (.string "2") 1 draft :=
    ⟨rfl, rfl, by decide, by decide, hid⟩
  have hfields : ({} : FieldRegistry).registerAll [publishing, titled] = .ok titledPosts.fields := rfl
  have hpublished : (draft.cell "published").equal (.ofInt64 1) = false := by decide
  have htitle : (draft.cell "title").equal (.ofInt64 1) = false := by decide
  obtain ⟨htoggles, -⟩ := toggling_alternates hlocates hfields "published" (f := publishing) rfl (by decide)
    [none, some .null, some (.bool false)] (by decide) (by decide)
  obtain ⟨-, hfails⟩ := toggling_alternates hlocates hfields "title" (f := titled) rfl (by decide)
    [none, some (.string "")] (by decide) (by decide)
  rw [hpublished] at htoggles
  rw [htitle] at hfails
  exact ⟨htoggles (by decide), hfails rfl⟩

end Repository

end RowQuery
