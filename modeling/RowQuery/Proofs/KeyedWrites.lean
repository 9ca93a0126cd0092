import RowQuery.Proofs.Deletion
import RowQuery.Proofs.Fields

namespace RowQuery

theorem map_eq_set {α : Type} {l : List α} {i : Nat} {a : α} {p : α → Bool} (ha : l[i]? = some a)
    (honly : ∀ j b, l[j]? = some b → (p b = true ↔ j = i)) (f : α → α) :
    (l.map fun b => if p b then f b else b) = l.set i (f a) := by
  obtain ⟨hi, rfl⟩ := List.getElem?_eq_some_iff.mp ha
  apply List.ext_getElem?
  intro j
  rw [List.getElem?_map, List.getElem?_set]
  by_cases hj : i = j
  · subst hj
    have hp := (honly i l[i] ha).mpr rfl
    simp [hi, hp]
  · rw [if_neg hj]
    cases hb : l[j]? with
    | none => rfl
    | some b =>
        have hp := mt (honly j b hb).mp (Ne.symm hj)
        simp [hp]

namespace Table

variable {t : Table} {id : Json} {i : Nat} {row : Row}

/-- The row at a place is the only one whose key is equal to a value. -/
structure Locates (t : Table) (id : Json) (i : Nat) (row : Row) : Prop where
  found : t.rows[i]? = some row
  only : ∀ j other, t.rows[j]? = some other → (t.keyIsAmong [id] other = true ↔ j = i)

theorem Locates.isNull (h : t.Locates id i row) : id.isNull = false := by
  have hamong := (h.only i row h.found).mpr rfl
  cases id with
  | null => simp [keyIsAmong, Json.equal_null_right] at hamong
  | _ => rfl

theorem Locates.find? (h : t.Locates id i row) : t.rows.find? (t.keyIsAmong [id]) = some row := by
  obtain ⟨hi, hrow⟩ := List.getElem?_eq_some_iff.mp h.found
  apply List.find?_eq_some_iff_getElem.mpr
  refine ⟨(h.only i row h.found).mpr rfl, i, hi, hrow, ?_⟩
  intro j hj
  have hother := mt (h.only j t.rows[j] (List.getElem?_eq_getElem (by omega))).mp (by omega)
  simpa using hother

/-- A table with another row at one of its places. -/
def withRowAt (t : Table) (i : Nat) (row : Row) : Table := { t with rows := t.rows.set i row }

theorem update_of_test {ids : List Json} {test : Row → Bool} (h : ∀ row ∈ t.rows, t.keyIsAmong ids row = test row)
    (data : Row) : t.update ids data =
      (t.rows.countP test, { t with rows := t.rows.map fun row => if test row then row.merge data else row }) := by
  have hcount : t.rows.countP (t.keyIsAmong ids) = t.rows.countP test :=
    List.countP_congr fun row hrow => by rw [h row hrow]
  have hrows : (t.rows.map fun row => if t.keyIsAmong ids row then row.merge data else row) =
      t.rows.map fun row => if test row then row.merge data else row :=
    List.map_congr_left fun row hrow => by rw [h row hrow]
  rw [update, hcount, hrows]

end Table

namespace Store

theorem changeMatched_error {α : Type} {s after : Store} {q : Query} {e : StoreError}
    {change : Table → List Json → Except StoreError α × Table} (hchange : ∀ t keys, ∃ a, (change t keys).1 = .ok a)
    (h : s.changeMatched q change = (.error e, after)) : after = s := by
  rcases changeMatched_eq.mp h with ⟨_, -, -, rfl⟩ | ⟨t, keys, t', -, -, hanswer, -⟩
  · rfl
  · obtain ⟨a, ha⟩ := hchange t keys
    rw [hanswer] at ha
    cases ha

theorem update_error {s after : Store} {q : Query} {data : Row} {e : StoreError}
    (h : s.update q data = (.error e, after)) : after = s :=
  changeMatched_error (fun _ _ => ⟨_, rfl⟩) h

end Store

namespace Repository

variable {r : Repository} {s after : Store} {t : Table} {id : Json} {i : Nat} {row : Row}

theorem write_error {data : Row} {e : RepositoryError} (h : r.write s id data row = (.error e, after)) : after = s := by
  unfold write at h
  obtain ⟨⟨answer, s'⟩, hupdate⟩ : ∃ c, s.update (r.byKey id) data = c := ⟨_, rfl⟩
  rw [hupdate] at h
  cases answer with
  | ok n => cases (Prod.mk.inj h).1
  | error e' =>
      obtain rfl := (Prod.mk.inj h).2
      exact Store.update_error hupdate

theorem updateById_error {data : Row} {e : RepositoryError} (h : r.updateById s id data = (.error e, after)) :
    after = s := by
  unfold updateById at h
  cases hfound : r.findById s id [] with
  | error e' =>
      rw [hfound] at h
      exact (Prod.mk.inj h).2.symm
  | ok row =>
      rw [hfound] at h
      exact write_error h

theorem updateByField_error {field : String} {value : Option Json} {e : RepositoryError}
    (h : r.updateByField s id field value = (.error e, after)) : after = s := by
  unfold updateByField at h
  cases hnext : r.fieldUpdate s id field value with
  | error e' =>
      rw [hnext] at h
      exact (Prod.mk.inj h).2.symm
  | ok next =>
      rw [hnext] at h
      exact write_error h

theorem findById_located (ht : s.table r.metadata.table = .ok t) (hkey : t.primaryKey = r.metadata.primaryKey)
    (hplain : '.' ∉ r.metadata.primaryKey.toList) (hid : t.Locates id i row) : r.findById s id [] = .ok row := by
  rw [findById_named ht hkey hid.isNull, names_of_plain hkey hplain, hid.find?]
  rfl

theorem write_located (ht : s.table r.metadata.table = .ok t) (hkey : t.primaryKey = r.metadata.primaryKey)
    (hplain : '.' ∉ r.metadata.primaryKey.toList) (hkeyed : t.Keyed) (hid : t.Locates id i row) (data answer : Row) :
    r.write s id data answer = (.ok answer, s.putTable r.metadata.table (t.withRowAt i (row.merge data))) := by
  have hupdate : s.update (r.byKey id) data = (.ok (t.rows.countP (r.names id)),
      s.putTable r.metadata.table (t.withRowAt i (row.merge data))) := by
    rw [Store.update, changeMatched_named ht hid.isNull,
      Table.update_of_test (fun row hrow => hkeyed.keyIsAmong_cells hrow), names_of_plain hkey hplain,
      map_eq_set hid.found hid.only (·.merge data)]
    rfl
  rw [write, hupdate]

theorem updateById_located (ht : s.table r.metadata.table = .ok t) (hkey : t.primaryKey = r.metadata.primaryKey)
    (hplain : '.' ∉ r.metadata.primaryKey.toList) (hkeyed : t.Keyed) (hid : t.Locates id i row) (data : Row) :
    r.updateById s id data =
      (.ok (row.merge data), s.putTable r.metadata.table (t.withRowAt i (row.merge data))) := by
  rw [updateById, findById_located ht hkey hplain hid]
  exact write_located ht hkey hplain hkeyed hid data (row.merge data)

theorem fieldUpdate_eq_ok (hfound : r.findById s id [] = .ok row) (hnamed : r.fields.Named) {field : String}
    {value : Option Json} {answer : Row} {next : Json} :
    r.fieldUpdate s id field value = .ok (answer, next) ↔
      next = nextValue value (row.cell field) ∧ answer = row.insert field next ∧
        ∃ f, r.fields.field field = .ok f ∧ f.validate next = .ok () := by
  constructor
  · intro h
    obtain ⟨f, hfield, h⟩ := Outcome.bind_eq_ok.mp h
    obtain ⟨row', hrow, h⟩ := Outcome.bind_eq_ok.mp h
    obtain ⟨out, hset, h⟩ := Outcome.bind_eq_ok.mp h
    rw [Outcome.mapError_eq_ok] at hfield hset
    obtain ⟨rfl, rfl⟩ := Prod.mk.inj (Except.ok.inj h)
    obtain rfl := Except.ok.inj (hfound.symm.trans hrow)
    obtain ⟨hvalid, rfl⟩ := Field.set_eq_ok.mp hset
    obtain rfl := hnamed field f hfield
    exact ⟨rfl, rfl, f, hfield, hvalid⟩
  · rintro ⟨rfl, rfl, f, hfield, hvalid⟩
    obtain rfl := hnamed field f hfield
    apply Outcome.bind_eq_ok.mpr
    refine ⟨f, Outcome.mapError_eq_ok.mpr hfield, Outcome.bind_eq_ok.mpr ⟨row, hfound, ?_⟩⟩
    have hset : f.set row (nextValue value (row.cell f.name)) = .ok _ := Field.set_eq_ok.mpr ⟨hvalid, rfl⟩
    exact Outcome.bind_eq_ok.mpr ⟨_, Outcome.mapError_eq_ok.mpr hset, rfl⟩

theorem updateByField_eq_write {answer : Row} {field : String} {value : Option Json} :
    r.updateByField s id field value = (.ok answer, after) ↔ ∃ next row, r.fieldUpdate s id field value = .ok (row, next) ∧
      r.write s id (Dict.empty.insert field next) row = (.ok answer, after) := by
  unfold updateByField
  cases r.fieldUpdate s id field value with
  | error e => simp
  | ok c =>
      obtain ⟨row, next⟩ := c
      simp

theorem updateByField_eq_ok {answer : Row} {field : String} {value : Option Json}
    (ht : s.table r.metadata.table = .ok t) (hkey : t.primaryKey = r.metadata.primaryKey)
    (hplain : '.' ∉ r.metadata.primaryKey.toList) (hkeyed : t.Keyed) (hid : t.Locates id i row)
    (hnamed : r.fields.Named) : r.updateByField s id field value = (.ok answer, after) ↔
      answer = row.insert field (nextValue value (row.cell field)) ∧
      (∃ f, r.fields.field field = .ok f ∧ f.validate (nextValue value (row.cell field)) = .ok ()) ∧
      after = s.putTable r.metadata.table (t.withRowAt i answer) := by
  have hfound := findById_located ht hkey hplain hid
  have hwrite : ∀ (next : Json) (answer : Row), r.write s id (Dict.empty.insert field next) answer =
      (.ok answer, s.putTable r.metadata.table (t.withRowAt i (row.insert field next))) := by
    intro next answer
    rw [write_located ht hkey hplain hkeyed hid, Dict.merge_insert]
    rfl
  rw [updateByField_eq_write]
  constructor
  · rintro ⟨next, answer', hnext, hrun⟩
    obtain ⟨rfl, rfl, hfield⟩ := (fieldUpdate_eq_ok hfound hnamed).mp hnext
    rw [hwrite] at hrun
    obtain ⟨hanswer, rfl⟩ := Prod.mk.inj hrun
    obtain rfl := Except.ok.inj hanswer
    exact ⟨rfl, hfield, rfl⟩
  · rintro ⟨rfl, hfield, rfl⟩
    exact ⟨_, _, (fieldUpdate_eq_ok hfound hnamed).mpr ⟨rfl, rfl, hfield⟩, hwrite _ _⟩

/-- What a write by key answers with is the row that is stored after it, the old row with the new columns laid over it,
as long as the key is that of one row; nothing else has changed. A write that fails has changed nothing at all. A row
of one key can always be written as a whole; one of its fields if the field is registered and takes the value. -/
theorem keyed_writes_answer_stored (r : Repository) (s : Store) :
    (∀ id data e after, r.updateById s id data = (.error e, after) → after = s) ∧
    (∀ id field value e after, r.updateByField s id field value = (.error e, after) → after = s) ∧
    ∀ t, s.table r.metadata.table = .ok t → t.primaryKey = r.metadata.primaryKey →
      '.' ∉ r.metadata.primaryKey.toList → t.Keyed → ∀ id i row, t.Locates id i row →
      (∀ data, r.updateById s id data =
        (.ok (row.merge data), s.putTable r.metadata.table (t.withRowAt i (row.merge data)))) ∧
      ∀ fields, ({} : FieldRegistry).registerAll fields = .ok r.fields → ∀ field value answer after,
        r.updateByField s id field value = (.ok answer, after) ↔
          answer = row.insert field (nextValue value (row.cell field)) ∧
          (∃ f, r.fields.field field = .ok f ∧ f.validate (nextValue value (row.cell field)) = .ok ()) ∧
          after = s.putTable r.metadata.table (t.withRowAt i answer) := by
  refine ⟨fun _ _ _ _ => updateById_error, fun _ _ _ _ _ => updateByField_error, ?_⟩
  intro t ht hkey hplain hkeyed id i row hid
  refine ⟨updateById_located ht hkey hplain hkeyed hid, ?_⟩
  intro fields hfields field value answer after
  exact updateByField_eq_ok ht hkey hplain hkeyed hid (FieldRegistry.named_registerAll hfields)

def draft : Row := .ofList [("post", .ofInt64 2), ("published", .ofInt64 0)]

/-- Two posts, of which one is published. -/
def postTable : Table where
  primaryKey := "post"
  rows := [.ofList [("post", .ofInt64 1), ("published", .ofInt64 1)], draft]

def postStore : Store where
  tables := .ofList [("posts", postTable)]

def publishing : Field := ⟨"published", .integer, false⟩

def posts : Repository where
  metadata := ⟨"posts", "post"⟩
  fields := ⟨Dict.empty.insert "published" publishing⟩

theorem keyed_writes_answer_stored_posts :
    postStore.table "posts" = .ok postTable ∧ postTable.Keyed ∧ postTable.Locates (.string "2") 1 draft ∧
    posts.updateById postStore (.string "2") (.ofList [("post", .ofInt64 9)]) =
      (.ok (draft.merge (.ofList [("post", .ofInt64 9)])), postStore.putTable "posts"
        (postTable.withRowAt 1 (draft.merge (.ofList [("post", .ofInt64 9)])))) ∧
    posts.updateByField postStore (.string "2") "published" none =
      (.ok (draft.insert "published" (.ofInt64 1)), postStore.putTable "posts"
        (postTable.withRowAt 1 (draft.insert "published" (.ofInt64 1)))) := by
  have hkeyed : postTable.Keyed := by decide
  have hplaces : ∀ e ∈ postTable.rows.zipIdx, postTable.keyIsAmong [.string "2"] e.1 = true ↔ e.2 = 1 := by
    decide
  have hid : postTable.Locates (.string "2") 1 draft :=
    ⟨rfl, fun j other h => hplaces (other, j) (List.mem_zipIdx_iff_getElem?.mpr h)⟩
  have hnext : nextValue none (draft.cell "published") = .ofInt64 1 := by decide
  obtain ⟨-, -, hwrites⟩ := keyed_writes_answer_stored posts postStore
  obtain ⟨hupdate, hfield⟩ := hwrites postTable rfl rfl (by decide) hkeyed (.string "2") 1 draft hid
  refine ⟨rfl, hkeyed, hid, hupdate _, ?_⟩
  have hset := hfield [publishing] rfl "published" none
  rw [hnext] at hset
  exact (hset _ _).mpr ⟨rfl, ⟨publishing, rfl, rfl⟩, rfl⟩

end Repository

end RowQuery
