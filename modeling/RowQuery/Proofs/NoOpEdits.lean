import RowQuery.Proofs.Compilation
import RowQuery.Proofs.Selection
import RowQuery.Store.Reading
import Mathlib.Logic.Relation

namespace RowQuery

namespace Query

def constrained (q : Query) : Query := { q with clauses := q.clauses.filter (!·.isUnconstrained) }

end Query

theorem Tuple.meetsAll_filter (t : Tuple) (clauses : List Clause) :
    t.meetsAll (clauses.filter (!·.isUnconstrained)) = t.meetsAll clauses := by
  refine Outcome.allM_filter ?_ clauses
  rintro ⟨logic, _ | ⟨c, rest⟩⟩ h
  · rfl
  · simp [Clause.isUnconstrained] at h

namespace Store

theorem selectTuples_constrained (s : Store) (q : Query) : s.selectTuples q.constrained = s.selectTuples q := by
  have htests : (fun t : Tuple => t.meetsAll q.constrained.clauses) = fun t => t.meetsAll q.clauses := by
    funext t
    exact t.meetsAll_filter q.clauses
  have hfiltered : s.filteredTuples q.constrained = s.filteredTuples q := by
    rw [filteredTuples, filteredTuples, htests]
    rfl
  rw [selectTuples, selectTuples, hfiltered]
  rfl

theorem get_constrained (s : Store) (q : Query) : s.get q.constrained = s.get q := by
  rw [get, get, selectTuples_constrained]
  rfl

theorem count_constrained (s : Store) (q : Query) : s.count q.constrained = s.count q := by
  have hstripped : q.constrained.forCount = q.forCount.constrained := rfl
  rw [count, count, hstripped, selectTuples_constrained]

theorem first_constrained (s : Store) (q : Query) : s.first q.constrained = s.first q := by
  have hlimited : q.constrained.limit 1 = (q.limit 1).constrained := rfl
  rw [first, first, hlimited, get_constrained]

theorem paginate_constrained (s : Store) (q : Query) (perPage : UInt64) (page : Option UInt64) :
    s.paginate q.constrained perPage page = s.paginate q perPage page := by
  have hpaged : ∀ page perPage, q.constrained.paginate page perPage = (q.paginate page perPage).constrained :=
    fun _ _ => rfl
  simp only [paginate, count_constrained, hpaged, get_constrained]

end Store

theorem Membership.pair?_eq_none {m : Membership} (h : m.items.length ≠ 2) : m.pair? = none := by
  cases m with
  | pair column values => exact absurd rfl h
  | ignored items arity => rfl

theorem Predicate.isActive_eq_false {p : Predicate} (h : p.value = .null) : p.isActive = false := by
  rw [isActive, h]
  rfl

namespace Descriptor

/-- A list of predicates that got one that is absent, or that has become empty instead of missing. -/
inductive Padded : Option (List Predicate) → Option (List Predicate) → Prop
  | empty : Padded none (some [])
  | insert (before after : List Predicate) (p : Predicate) (hp : p.value = .null) :
      Padded (some (before ++ after)) (some (before ++ p :: after))

/-- An edit of a part of a descriptor that asks for nothing before and after it. -/
inductive NoOpEdit (d : Descriptor) : Descriptor → Prop
  | whereAll (ps) (h : Padded d.whereAll ps) : NoOpEdit d { d with whereAll := ps }
  | whereAny (ps) (h : Padded d.whereAny ps) : NoOpEdit d { d with whereAny := ps }
  | whereDate (p) (h : d.whereDate = none) (hp : p.value = .null) : NoOpEdit d { d with whereDate := some p }
  | whereMonth (p) (h : d.whereMonth = none) (hp : p.value = .null) : NoOpEdit d { d with whereMonth := some p }
  | whereIn (m) (h : d.whereIn = none) (hm : m.items.length ≠ 2) : NoOpEdit d { d with whereIn := some m }
  | whereNotIn (m) (h : d.whereNotIn = none) (hm : m.items.length ≠ 2) : NoOpEdit d { d with whereNotIn := some m }
  | relations (h : d.relations = none) : NoOpEdit d { d with relations := some [] }
  | joins (h : d.joins = none) : NoOpEdit d { d with joins := some [] }
  | limit (h : d.limit = none) : NoOpEdit d { d with limit := some 0 }

end Descriptor

namespace Stage

open Descriptor

variable {d d' : Descriptor}

theorem filter_group (logic : Logic) (ps : List Predicate) :
    (group logic ps).filter (!·.isUnconstrained) =
      if Query.activeConditions ps = [] then [] else [⟨logic, Query.activeConditions ps⟩] := by
  cases ps with
  | nil => rfl
  | cons p rest =>
      rw [group, if_neg (List.cons_ne_nil p rest)]
      cases h : Query.activeConditions (p :: rest) <;> simp [Clause.isUnconstrained]

theorem filter_group_of_padded {ps ps' : Option (List Predicate)} (h : Padded ps ps') (logic : Logic) :
    (group logic (ps'.getD [])).filter (!·.isUnconstrained) =
      (group logic (ps.getD [])).filter (!·.isUnconstrained) := by
  cases h with
  | empty => rfl
  | insert before after p hp =>
      have hactive : Query.activeConditions (before ++ p :: after) = Query.activeConditions (before ++ after) := by
        simp [Query.activeConditions, Predicate.isActive_eq_false hp]
      rw [Option.getD_some, Option.getD_some, filter_group, filter_group, hactive]

theorem loads_of_edit (h : NoOpEdit d d') : loads d' = loads d := by
  funext stage
  cases h with
  | relations h => cases stage <;> simp [loads, h]
  | _ => cases stage <;> rfl

theorem joined_of_edit (h : NoOpEdit d d') : joined d' = joined d := by
  funext stage
  cases h with
  | joins h => cases stage <;> simp [joined, h]
  | _ => cases stage <;> rfl

theorem orders_of_edit (h : NoOpEdit d d') : orders d' = orders d := by
  funext stage
  cases h <;> cases stage <;> rfl

theorem limited_of_edit (h : NoOpEdit d d') : limited d' = limited d := by
  funext p stage
  cases h with
  | limit h => cases stage <;> simp [limited, h, Option.filter_some]
  | _ => cases stage <;> rfl

theorem clauses_of_edit (h : NoOpEdit d d') (stage : Stage) :
    (clauses d' stage).filter (!·.isUnconstrained) = (clauses d stage).filter (!·.isUnconstrained) := by
  cases h with
  | whereAll ps h =>
      cases stage with
      | whereAll => exact filter_group_of_padded h .and
      | _ => rfl
  | whereAny ps h =>
      cases stage with
      | whereAny => exact filter_group_of_padded h .or
      | _ => rfl
  | whereDate p h hp => cases stage <;> simp [clauses, h, Option.filter_some, Predicate.isActive_eq_false hp]
  | whereMonth p h hp => cases stage <;> simp [clauses, h, Option.filter_some, Predicate.isActive_eq_false hp]
  | whereIn m h hm => cases stage <;> simp [clauses, h, Membership.pair?_eq_none hm]
  | whereNotIn m h hm => cases stage <;> simp [clauses, h, Membership.pair?_eq_none hm]
  | relations h | joins h | limit h => cases stage <;> rfl

end Stage

namespace Store

open Descriptor

theorem constrained_compile_of_edit {d d' : Descriptor} (h : NoOpEdit d d') (q : Query) :
    (q.compile d').constrained = (q.compile d).constrained := by
  rw [Query.compile, Query.compile, Query.compileStages_eq, Query.compileStages_eq, Query.constrained,
    Query.constrained]
  simp only [List.filter_append, List.filter_flatMap, Stage.clauses_of_edit h, Stage.loads_of_edit h,
    Stage.joined_of_edit h, Stage.orders_of_edit h, Stage.limited_of_edit h]

theorem constrained_compile_of_edits {d d' : Descriptor} (h : Relation.ReflTransGen NoOpEdit d d') (q : Query) :
    (q.compile d').constrained = (q.compile d).constrained := by
  induction h with
  | refl => rfl
  | tail _ hedit ih => rw [constrained_compile_of_edit hedit, ih]

/-- Edits of parts that ask for nothing change nothing, neither rows nor errors, of what any reader of the
compiled query answers. -/
theorem noOpEdits_invisible (s : Store) (q : Query) {d d' : Descriptor} (h : Relation.ReflTransGen NoOpEdit d d') :
    s.get (q.compile d') = s.get (q.compile d) ∧ s.count (q.compile d') = s.count (q.compile d) ∧
    s.first (q.compile d') = s.first (q.compile d) ∧
    ∀ perPage page, s.paginate (q.compile d') perPage page = s.paginate (q.compile d) perPage page := by
  -- The compiled queries differ in empty groups, so they are compared without these.
  have hsame := constrained_compile_of_edits h q
  refine ⟨?_, ?_, ?_, fun perPage page => ?_⟩
  · rw [← get_constrained, hsame, get_constrained]
  · rw [← count_constrained, hsame, count_constrained]
  · rw [← first_constrained, hsame, first_constrained]
  · rw [← paginate_constrained, hsame, paginate_constrained]

theorem noOpEdits_invisible_laterPurchase :
    let padded : Descriptor := { laterPurchase with
      whereAll := some [⟨"name", "=", .null⟩, ⟨"orders.id", ">", .ofInt64 1⟩]
      whereAny := some [⟨"name", "=", .null⟩]
      whereIn := some (.ignored [] (by decide)) }
    Relation.ReflTransGen NoOpEdit laterPurchase padded ∧
      ∃ rows, shop.get (({ table := "people" } : Query).compile padded) = .ok rows ∧
        shop.get (({ table := "people" } : Query).compile laterPurchase) = .ok rows := by
  intro padded
  have hempty : NoOpEdit laterPurchase { laterPurchase with whereAny := some [] } := .whereAny _ .empty
  have hany : NoOpEdit { laterPurchase with whereAny := some [] }
      { laterPurchase with whereAny := some [⟨"name", "=", .null⟩] } := .whereAny _ (.insert [] [] _ rfl)
  have hall : NoOpEdit { laterPurchase with whereAny := some [⟨"name", "=", .null⟩] }
      { padded with whereIn := none } := .whereAll _ (.insert [] [⟨"orders.id", ">", .ofInt64 1⟩] _ rfl)
  have hin : NoOpEdit { padded with whereIn := none } padded := .whereIn _ rfl (by decide)
  have hedits : Relation.ReflTransGen NoOpEdit laterPurchase padded :=
    (((Relation.ReflTransGen.single hempty).tail hany).tail hall).tail hin
  have hget : (shop.get (({ table := "people" } : Query).compile laterPurchase)).toOption.isSome := by decide
  obtain ⟨rows, hrows⟩ := Outcome.toOption_isSome.mp hget
  exact ⟨hedits, rows, (noOpEdits_invisible shop { table := "people" } hedits).1.trans hrows, hrows⟩

end Store

end RowQuery
