import Mathlib.Data.List.Forall2
import RowQuery.Proofs.Insertion

namespace RowQuery

namespace Table

variable {name : String} {t t' : Table} {row stored : Row} {rows : List Row} {values : List Json} {e : StoreError}

section AddEach

variable {α : Type} {add : Table → α → Except StoreError Table}

/-- Adds items in turn, up to the first that is refused. -/
def addEach (add : Table → α → Except StoreError Table) (t : Table) : List α → Except StoreError Unit × Table
  | [] => (.ok (), t)
  | item :: rest =>
    match add t item with
    | .ok t' => addEach add t' rest
    | .error e => (.error e, t)

theorem addEach_cons_of_ok {item : α} (h : add t item = .ok t') (rest : List α) :
    t.addEach add (item :: rest) = t'.addEach add rest := by
  rw [addEach, h]

theorem addEach_cons_of_error {item : α} (h : add t item = .error e) (rest : List α) :
    t.addEach add (item :: rest) = (.error e, t) := by
  rw [addEach, h]

theorem addEach_cons_eq_ok {item : α} {rest : List α} (h : t.addEach add (item :: rest) = (.ok (), t')) :
    ∃ next, add t item = .ok next ∧ next.addEach add rest = (.ok (), t') := by
  cases hadd : add t item with
  | error e =>
      rw [addEach_cons_of_error hadd] at h
      cases (Prod.mk.inj h).1
  | ok next => exact ⟨next, rfl, (addEach_cons_of_ok hadd rest).symm.trans h⟩

theorem addEach_map {β : Type} (f : β → α) (items : List β) :
    t.addEach add (items.map f) = t.addEach (fun t b => add t (f b)) items := by
  induction items generalizing t with
  | nil => rfl
  | cons b rest ih =>
      rw [List.map_cons, addEach, addEach]
      cases add t (f b) with
      | error e => rfl
      | ok next => exact ih

/-- Behind items that are all taken a batch goes on as a batch of its own. -/
theorem addEach_append {before : List α} (h : t.addEach add before = (.ok (), t')) (items : List α) :
    t.addEach add (before ++ items) = t'.addEach add items := by
  induction before generalizing t with
  | nil =>
      obtain ⟨-, rfl⟩ := Prod.mk.inj h
      rfl
  | cons item rest ih =>
      obtain ⟨next, hadd, hrest⟩ := addEach_cons_eq_ok h
      rw [List.cons_append, addEach_cons_of_ok hadd]
      exact ih hrest

/-- A batch fails at an item if those before it are all taken, and the table that they leave refuses it. -/
theorem addEach_eq_error {items : List α} : t.addEach add items = (.error e, t') ↔
    ∃ before item rest, items = before ++ item :: rest ∧ t.addEach add before = (.ok (), t') ∧
      add t' item = .error e := by
  constructor
  · intro h
    induction items generalizing t with
    | nil => cases (Prod.mk.inj h).1
    | cons item rest ih =>
        cases hadd : add t item with
        | error e' =>
            rw [addEach_cons_of_error hadd] at h
            obtain ⟨he, rfl⟩ := Prod.mk.inj h
            obtain rfl := Except.error.inj he
            exact ⟨[], item, rest, rfl, rfl, hadd⟩
        | ok next =>
            rw [addEach_cons_of_ok hadd] at h
            obtain ⟨before, failing, last, rfl, hbefore, hfails⟩ := ih h
            exact ⟨item :: before, failing, last, rfl, (addEach_cons_of_ok hadd before).trans hbefore, hfails⟩
  · rintro ⟨before, item, rest, rfl, hbefore, hfails⟩
    rw [addEach_append hbefore, addEach_cons_of_error hfails]

end AddEach

def withRow (name : String) (t : Table) (row : Row) : Except StoreError Table := (t.insert name row).map Prod.snd

def withValue (name : String) (t : Table) : Json → Except StoreError Table
  | .object members => t.withRow name (.ofList members)
  | _ => .error (.seedNotObject name)

theorem insertEach_eq_addEach : t.insertEach name rows = t.addEach (withRow name) rows := by
  induction rows generalizing t with
  | nil => rfl
  | cons row rest ih =>
      rw [insertEach, addEach, withRow]
      cases t.insert name row with
      | error e => rfl
      | ok r => exact ih

theorem seed_eq_addEach : t.seed name values = t.addEach (withValue name) values := by
  induction values generalizing t with
  | nil => rfl
  | cons value rest ih =>
      cases value with
      | object members =>
          rw [seed, addEach, withValue, withRow]
          cases t.insert name (.ofList members) with
          | error e => rfl
          | ok r => exact ih
      | _ => rfl

theorem withRow_eq_error : t.withRow name row = .error e ↔ t.insert name row = .error e := by
  unfold withRow
  cases t.insert name row <;> simp [Except.map]

theorem withValue_eq_error {value : Json} : t.withValue name value = .error e ↔
    (∀ members, value ≠ .object members) ∧ e = .seedNotObject name ∨
    ∃ members, value = .object members ∧ t.insert name (.ofList members) = .error e := by
  cases value with
  | object members => simp [withValue, withRow_eq_error]
  | _ => simp [withValue, eq_comm]

theorem seed_objects (objects : List (List (String × Json))) :
    t.seed name (objects.map .object) = t.insertEach name (objects.map .ofList) := by
  rw [seed_eq_addEach, insertEach_eq_addEach, addEach_map, addEach_map]
  rfl

theorem objects_of_seed (h : t.seed name values = (.ok (), t')) :
    ∃ objects : List (List (String × Json)), values = objects.map .object := by
  rw [seed_eq_addEach] at h
  induction values generalizing t with
  | nil => exact ⟨[], rfl⟩
  | cons value rest ih =>
      obtain ⟨next, hvalue, hrest⟩ := addEach_cons_eq_ok h
      obtain ⟨objects, rfl⟩ := ih hrest
      cases value with
      | object members => exact ⟨members :: objects, rfl⟩
      | _ => cases hvalue

/-- A row as a table stores it: as it is if it has a key, else under a key that it is given. -/
def StoredAs (t : Table) (row stored : Row) : Prop :=
  (t.keyOf? row).isSome = true ∧ stored = row ∨
  t.keyOf? row = none ∧ ∃ key, stored = row.insert t.primaryKey (.ofInt64 key)

theorem storedAs_congr (h : t'.primaryKey = t.primaryKey) : t'.StoredAs = t.StoredAs := by
  funext row stored
  simp only [StoredAs, keyOf?_congr h, h]

theorem withRow_keeps (h : t.withRow name row = .ok t') :
    t'.primaryKey = t.primaryKey ∧ ∃ stored, t'.rows = t.rows ++ [stored] ∧ t.StoredAs row stored := by
  unfold withRow at h
  cases hinsert : t.insert name row with
  | error e => simp [hinsert, Except.map] at h
  | ok r =>
      rw [hinsert] at h
      obtain rfl := Except.ok.inj h
      rcases insert_eq_ok.mp hinsert with ⟨key, hkey, -, hstored, hnext⟩ | ⟨hnone, hstored, hnext⟩
      · refine ⟨by rw [hnext], row, by rw [hnext], .inl ⟨?_, rfl⟩⟩
        exact Option.isSome_iff_exists.mpr ⟨key, hkey⟩
      · exact ⟨by rw [hnext], r.1, by rw [hnext], .inr ⟨hnone, _, hstored⟩⟩

/-- Rows that are all taken stand at the end of the table, in their order. -/
theorem insertEach_keeps (h : t.insertEach name rows = (.ok (), t')) :
    ∃ kept, t'.rows = t.rows ++ kept ∧ List.Forall₂ t.StoredAs rows kept := by
  rw [insertEach_eq_addEach] at h
  induction rows generalizing t with
  | nil =>
      obtain ⟨-, rfl⟩ := Prod.mk.inj h
      exact ⟨[], (List.append_nil _).symm, .nil⟩
  | cons row rest ih =>
      obtain ⟨next, hrow, hrest⟩ := addEach_cons_eq_ok h
      obtain ⟨hkey, stored, hrows, hstored⟩ := withRow_keeps hrow
      obtain ⟨kept, hkept, hall⟩ := ih hrest
      refine ⟨stored :: kept, ?_, .cons hstored (storedAs_congr hkey ▸ hall)⟩
      rw [hkept, hrows, List.append_assoc, List.singleton_append]

end Table

namespace Store

variable {s after : Store} {name : String} {row : Row} {rows : List Row} {values : List Json} {e : StoreError}

theorem table_of_changeTable {α : Type} {a : α} {change : Table → Except StoreError α × Table}
    (h : s.changeTable name change = (.ok a, after)) : ∃ t, after.table name = .ok t := by
  rcases changeTable_eq.mp h with ⟨_, -, hok, -⟩ | ⟨-, t, -, -, rfl⟩
  · cases hok
  · exact ⟨t, table_putTable s name t⟩

theorem create_eq_error (htable : ∃ t, s.table name = .ok t) : s.create name row = (.error e, s) ↔
    ∃ t, s.table name = .ok t ∧ t.insert name row = .error e := by
  obtain ⟨t, ht⟩ := htable
  simp only [ht, Except.ok.injEq, exists_eq_left']
  cases hinsert : t.insert name row with
  | error e' =>
      rw [create, tryTable_of_error ht hinsert]
      simp
  | ok r =>
      rw [create, tryTable_of_ok ht hinsert]
      simp

theorem addEach_eq_error {α : Type} {add : Table → α → Except StoreError Table} {items : List α} :
    s.changeTable name (fun t => t.addEach add items) = (.error e, after) ↔
      s.table name = .error e ∧ after = s ∨
      ∃ before item rest, items = before ++ item :: rest ∧
        s.changeTable name (fun t => t.addEach add before) = (.ok (), after) ∧
        ∃ t', after.table name = .ok t' ∧ add t' item = .error e := by
  constructor
  · intro h
    rcases changeTable_eq.mp h with ⟨e', htable, he, rfl⟩ | ⟨t, t', ht, hitems, rfl⟩
    · obtain rfl := Except.error.inj he
      exact .inl ⟨htable, rfl⟩
    · obtain ⟨before, item, rest, rfl, hbefore, hitem⟩ := Table.addEach_eq_error.mp hitems
      refine .inr ⟨before, item, rest, rfl, ?_, t', table_putTable s name t', hitem⟩
      exact changeTable_eq.mpr (.inr ⟨t, t', ht, hbefore, rfl⟩)
  · rintro (⟨htable, rfl⟩ | ⟨before, item, rest, rfl, hbefore, t', ht', hitem⟩)
    · exact changeTable_eq.mpr (.inl ⟨e, htable, rfl, rfl⟩)
    · rcases changeTable_eq.mp hbefore with ⟨_, -, hok, -⟩ | ⟨t, u, ht, hu, rfl⟩
      · cases hok
      · obtain rfl := Except.ok.inj ((table_putTable s name u).symm.trans ht')
        refine changeTable_eq.mpr (.inr ⟨t, u, ht, ?_, rfl⟩)
        exact Table.addEach_eq_error.mpr ⟨before, item, rest, rfl, hu, hitem⟩

theorem insert_eq_addEach : s.insert name rows = s.changeTable name fun t => t.addEach (Table.withRow name) rows :=
  congrArg (s.changeTable name) (funext fun _ => Table.insertEach_eq_addEach)

theorem seed_eq_addEach :
    s.seed name values = s.changeTable name fun t => t.addEach (Table.withValue name) values :=
  congrArg (s.changeTable name) (funext fun _ => Table.seed_eq_addEach)

theorem insert_eq_ok : s.insert name rows = (.ok (), after) ↔
    ∃ t t', s.table name = .ok t ∧ t.insertEach name rows = (.ok (), t') ∧ after = s.putTable name t' := by
  rw [insert, changeTable_eq]
  simp

theorem insert_eq_error : s.insert name rows = (.error e, after) ↔ s.table name = .error e ∧ after = s ∨
    ∃ before row rest, rows = before ++ row :: rest ∧ s.insert name before = (.ok (), after) ∧
      after.create name row = (.error e, after) := by
  simp only [insert_eq_addEach, addEach_eq_error]
  refine or_congr_right (exists₃_congr fun before row rest => ?_)
  refine and_congr_right fun _ => and_congr_right fun hbefore => ?_
  simp only [create_eq_error (table_of_changeTable hbefore), Table.withRow_eq_error]

/-- A value that a store refuses to be seeded with: it is no object, or its row is refused. -/
def RefusesSeed (s : Store) (name : String) (value : Json) (e : StoreError) : Prop :=
  (∀ members, value ≠ .object members) ∧ e = .seedNotObject name ∨
  ∃ members, value = .object members ∧ s.create name (.ofList members) = (.error e, s)

theorem refusesSeed_iff (htable : ∃ t, s.table name = .ok t) {value : Json} :
    s.RefusesSeed name value e ↔ ∃ t, s.table name = .ok t ∧ t.withValue name value = .error e := by
  simp only [RefusesSeed, create_eq_error htable, Table.withValue_eq_error]
  obtain ⟨t, ht⟩ := htable
  simp only [ht, Except.ok.injEq, exists_eq_left']

theorem seed_eq_error : s.seed name values = (.error e, after) ↔ s.table name = .error e ∧ after = s ∨
    ∃ before value rest, values = before ++ value :: rest ∧ s.seed name before = (.ok (), after) ∧
      after.RefusesSeed name value e := by
  simp only [seed_eq_addEach, addEach_eq_error]
  refine or_congr_right (exists₃_congr fun before value rest => ?_)
  refine and_congr_right fun _ => and_congr_right fun hbefore => ?_
  exact (refusesSeed_iff (table_of_changeTable hbefore)).symm

theorem seed_objects (objects : List (List (String × Json))) :
    s.seed name (objects.map .object) = s.insert name (objects.map .ofList) :=
  congrArg (s.changeTable name) (funext fun _ => Table.seed_objects objects)

/-- Values that a store is seeded with in full are objects, and are taken as their rows are. -/
theorem seed_eq_ok : s.seed name values = (.ok (), after) ↔
    ∃ objects : List (List (String × Json)), values = objects.map .object ∧
      s.insert name (objects.map .ofList) = (.ok (), after) := by
  constructor
  · intro h
    rcases changeTable_eq.mp h with ⟨_, -, hok, -⟩ | ⟨t, t', -, hvalues, -⟩
    · cases hok
    · obtain ⟨objects, rfl⟩ := Table.objects_of_seed hvalues
      exact ⟨objects, rfl, (seed_objects objects).symm.trans h⟩
  · rintro ⟨objects, rfl, h⟩
    exact (seed_objects objects).trans h

theorem insert_keeps (h : s.insert name rows = (.ok (), after)) : (after = s ↔ rows = []) ∧
    ∃ t t' kept, s.table name = .ok t ∧ after = s.putTable name t' ∧ t'.rows = t.rows ++ kept ∧
      List.Forall₂ t.StoredAs rows kept := by
  obtain ⟨t, t', ht, hrows, rfl⟩ := insert_eq_ok.mp h
  obtain ⟨kept, hkept, hstored⟩ := Table.insertEach_keeps hrows
  refine ⟨⟨fun hsame => ?_, ?_⟩, t, t', kept, ht, rfl, hkept, hstored⟩
  · have htable := table_putTable s name t'
    rw [hsame, ht] at htable
    rw [← Except.ok.inj htable, List.self_eq_append_right] at hkept
    rw [hkept] at hstored
    exact List.forall₂_nil_right_iff.mp hstored
  · rintro rfl
    obtain ⟨-, rfl⟩ := Prod.mk.inj hrows
    exact putTable_self ht

/-- A batch that fails leaves what a batch of the items before the failing one does, of rows as of keys handed out:
those items have been taken, each at the end of the table, so that nothing has changed only if there is none. It fails
at a row that could not be created on its own behind them, and a batch of values also at one that is no object. -/
theorem failed_batch_keeps_taken (s : Store) (name : String) (e : StoreError) (after : Store) :
    (∀ rows, s.insert name rows = (.error e, after) ↔ s.table name = .error e ∧ after = s ∨
      ∃ before row rest, rows = before ++ row :: rest ∧ s.insert name before = (.ok (), after) ∧
        after.create name row = (.error e, after)) ∧
    (∀ values, s.seed name values = (.error e, after) ↔ s.table name = .error e ∧ after = s ∨
      ∃ before value rest, values = before ++ value :: rest ∧ s.seed name before = (.ok (), after) ∧
        after.RefusesSeed name value e) ∧
    (∀ values, s.seed name values = (.ok (), after) ↔ ∃ objects : List (List (String × Json)),
      values = objects.map .object ∧ s.insert name (objects.map .ofList) = (.ok (), after)) ∧
    ∀ rows, s.insert name rows = (.ok (), after) → (after = s ↔ rows = []) ∧
      ∃ t t' kept, s.table name = .ok t ∧ after = s.putTable name t' ∧ t'.rows = t.rows ++ kept ∧
        List.Forall₂ t.StoredAs rows kept :=
  ⟨fun _ => insert_eq_error, fun _ => seed_eq_error, fun _ => seed_eq_ok, fun _ => insert_keeps⟩

/-- A store with one empty table. -/
def guestBook : Store := ({} : Store).createTable "guests" "id"

def firstGuest : Row := .ofList [("id", .ofInt64 1)]

theorem insert_firstGuest :
    guestBook.insert "guests" [firstGuest] = (.ok (), (guestBook.insert "guests" [firstGuest]).2) := rfl

theorem failed_batch_keeps_taken_guests : ∃ e after,
    guestBook.insert "guests" [firstGuest, firstGuest] = (.error e, after) ∧
      guestBook.insert "guests" [firstGuest] = (.ok (), after) ∧ after ≠ guestBook := by
  obtain ⟨hinsert, -, -, hkept⟩ := failed_batch_keeps_taken guestBook "guests" (.duplicateKey "guests" (.ofInt64 1))
    (guestBook.insert "guests" [firstGuest]).2
  obtain ⟨hsame, -⟩ := hkept [firstGuest] insert_firstGuest
  refine ⟨_, _, (hinsert [firstGuest, firstGuest]).mpr (.inr ?_), insert_firstGuest, fun hafter => ?_⟩
  · exact ⟨[firstGuest], firstGuest, [], rfl, insert_firstGuest, rfl⟩
  · exact List.cons_ne_nil _ _ (hsame.mp hafter)

/-- A batch that fails is not undone: the row before the failing one stays. -/
theorem failed_batch_not_undone :
    ¬∀ (s after : Store) (name : String) (e : StoreError),
      (∃ rows, s.insert name rows = (.error e, after)) ∨ (∃ values, s.seed name values = (.error e, after)) →
      ∀ t t', s.table name = .ok t → after.table name = .ok t' → t'.rows = t.rows ∧ t'.nextKey = t.nextKey := by
  intro hundone
  have hfails : guestBook.insert "guests" [firstGuest, firstGuest] =
      (.error (.duplicateKey "guests" (.ofInt64 1)), (guestBook.insert "guests" [firstGuest]).2) := rfl
  have htable : (guestBook.insert "guests" [firstGuest]).2.table "guests" =
      .ok { primaryKey := "id", rows := [firstGuest], nextKey := 2 } := rfl
  obtain ⟨hrows, -⟩ := hundone _ _ _ _ (.inl ⟨_, hfails⟩) { primaryKey := "id" } _ rfl htable
  exact List.cons_ne_nil _ _ hrows

end Store

end RowQuery
