import RowQuery.Proofs.Outcome
import RowQuery.Store.Selection

namespace RowQuery

variable {α β : Type}

/-- Whether a test answers, and answers yes. -/
def passes (test : α → Except StoreError Bool) (a : α) : Bool :=
  match test a with
  | .ok b => b
  | .error _ => false

theorem passes_iff {test : α → Except StoreError Bool} {a : α} : passes test a = true ↔ test a = .ok true := by
  unfold passes
  split <;> simp_all

theorem passes_map_and (test : α → Except StoreError Bool) (f : α → Bool) :
    passes (fun a => (test a).map (· && f a)) = fun a => f a && passes test a := by
  funext a
  simp only [passes]
  cases test a with
  | error e => simp [Except.map]
  | ok b => simp [Except.map, Bool.and_comm]

theorem keepOk_eq_ok {test : α → Except StoreError Bool} {l kept : List α} :
    keepOk test l = .ok kept ↔ (∀ a ∈ l, ∃ b, test a = .ok b) ∧ kept = l.filter (passes test) := by
  induction l generalizing kept with
  | nil => simp [keepOk, eq_comm]
  | cons a rest ih =>
      simp only [keepOk, Outcome.bind_eq_ok, ih, List.forall_mem_cons]
      constructor
      · rintro ⟨b, ha, _, ⟨hrest, rfl⟩, h⟩
        refine ⟨⟨⟨b, ha⟩, hrest⟩, ?_⟩
        cases b <;> simp_all [passes]
      · rintro ⟨⟨⟨b, ha⟩, hrest⟩, rfl⟩
        refine ⟨b, ha, _, ⟨hrest, rfl⟩, ?_⟩
        cases b <;> simp [passes, ha]

theorem map_keepOk (test : β → Except StoreError Bool) (f : α → β) (l : List α) :
    (keepOk (fun a => test (f a)) l).map (List.map f) = keepOk test (l.map f) := by
  induction l with
  | nil => rfl
  | cons a rest ih =>
      simp only [List.map_cons, keepOk, ← ih]
      cases test (f a) with
      | error e => rfl
      | ok b => cases keepOk (fun a => test (f a)) rest <;> cases b <;> rfl

theorem map_insertBy (order : β → β → Ordering) (f : α → β) (a : α) (l : List α) :
    (insertBy (fun a b => order (f a) (f b)) a l).map f = insertBy order (f a) (l.map f) := by
  induction l with
  | nil => rfl
  | cons b rest ih =>
      simp only [insertBy, List.map_cons]
      split
      · rw [List.map_cons, ih]
      · rfl

theorem map_sortedBy (order : β → β → Ordering) (f : α → β) (l : List α) :
    (sortedBy (fun a b => order (f a) (f b)) l).map f = sortedBy order (l.map f) := by
  induction l with
  | nil => rfl
  | cons a rest ih => rw [sortedBy, map_insertBy, ih, List.map_cons, sortedBy]

theorem Pagination.slice_sublist (p : Pagination) (l : List α) : (p.slice l).Sublist l :=
  (List.take_sublist _ _).trans (List.drop_sublist _ _)

theorem Pagination.map_slice (p : Pagination) (f : α → β) (l : List α) : (p.slice l).map f = p.slice (l.map f) := by
  simp [slice, List.map_take, List.map_drop]

theorem Pagination.slice_limit (limit : UInt64) (offset : Option UInt64) (rows : List α) :
    Pagination.slice { limit := some limit, offset } rows =
      (rows.drop ((offset.map UInt64.toNat).getD 0)).take limit.toNat := by
  simp only [slice, bounds]
  generalize (offset.map UInt64.toNat).getD 0 = start
  by_cases hstart : start ≤ rows.length
  · rw [Nat.min_eq_left hstart, List.take_eq_take_iff, List.length_drop]
    omega
  · have hpast : rows.length ≤ start := Nat.le_of_not_le hstart
    rw [Nat.min_eq_right hpast, List.drop_length, List.drop_of_length_le hpast, List.take_nil, List.take_nil]

namespace Store

theorem paginated_sublist (p : Option Pagination) (l : List α) : (paginated p l).Sublist l := by
  cases p with
  | none => exact .refl l
  | some p => exact p.slice_sublist l

theorem map_paginated (p : Option Pagination) (f : α → β) (l : List α) :
    (paginated p l).map f = paginated p (l.map f) := by
  cases p with
  | none => rfl
  | some p => exact p.map_slice f l

theorem paginated_limit (n : UInt64) (l : List α) : paginated (some { limit := some n }) l = l.take n.toNat :=
  Pagination.slice_limit n none l

/-- Only the filters of a selection can fail once its tables are joined. -/
theorem selectTuples_eq_ok {s : Store} {q : Query} {tuples : List Tuple} :
    s.selectTuples q = .ok tuples ↔ ∃ joined, s.joinedTuples q = .ok joined ∧
      (∀ t ∈ joined, ∃ b, t.meetsAll q.clauses = .ok b) ∧
      tuples = paginated q.pagination (sortedBy (Tuple.order q.orders)
        (joined.filter (passes (·.meetsAll q.clauses)))) := by
  simp only [selectTuples, filteredTuples, Outcome.bind_eq_ok, keepOk_eq_ok, Except.ok.injEq]
  constructor
  · rintro ⟨_, ⟨joined, hjoined, htests, rfl⟩, rfl⟩
    exact ⟨joined, hjoined, htests, rfl⟩
  · rintro ⟨joined, hjoined, htests, rfl⟩
    exact ⟨_, ⟨joined, hjoined, htests, rfl⟩, rfl⟩

/-- Three people, of whom the first placed both orders: a store to which the main statements are applied. -/
def shop : Store where
  tables := .ofList [
    ("people", { primaryKey := "id", rows := [
      .ofList [("id", .ofInt64 1), ("name", .string "ann")],
      .ofList [("id", .string "x"), ("name", .string "bob")],
      .ofList [("id", .array []), ("name", .string "cyd")]] }),
    ("orders", { primaryKey := "id", rows := [
      .ofList [("id", .ofInt64 1), ("person", .string "1")],
      .ofList [("id", .ofInt64 2), ("person", .ofInt64 1)]] })]

end Store

/-- The people of the shop, once for each of their orders. -/
def Query.purchases : Query where
  table := "people"
  joins := [⟨.inner, "orders", ⟨"orders.person", "=", "people.id"⟩⟩]

/-- A search for one person who has an order after the first. -/
def Descriptor.laterPurchase : Descriptor where
  joins := some [⟨"orders", "orders.person", "=", "people.id"⟩]
  whereAll := some [⟨"orders.id", ">", .ofInt64 1⟩]
  limit := some 1

end RowQuery
