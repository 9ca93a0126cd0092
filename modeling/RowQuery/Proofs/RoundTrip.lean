import RowQuery.Descriptor.Reader
import RowQuery.Descriptor.Writer
import RowQuery.Proofs.Columns
import RowQuery.Proofs.Outcome

namespace RowQuery

theorem get?_addAll_memberOf {α : Type} (d : Row) (name : String) (write : α → Json) (a : Option α) (other : String) :
    (d.addAll (memberOf name write a)).get? other =
      if other = name then (a.map write).or (d.get? other) else d.get? other := by
  cases a with
  | none => simp [memberOf, Dict.addAll]
  | some a =>
      show (d.insert name (write a)).get? other = _
      rw [Dict.get?_insert]
      rfl

/-- No list of fields is empty and no limit is zero. -/
structure RelationSpec.Filled (r : RelationSpec) : Prop where
  fields : ∀ fields ∈ r.fields, fields ≠ []
  limit : r.limit ≠ some 0

instance (r : RelationSpec) : Decidable r.Filled :=
  decidable_of_iff ((∀ fields ∈ r.fields, fields ≠ []) ∧ r.limit ≠ some 0)
    ⟨fun h => ⟨h.1, h.2⟩, fun h => ⟨h.fields, h.limit⟩⟩

/-- A row has the members that are written of a request for related rows. -/
structure RelationSpec.WrittenIn (r : RelationSpec) (row : Row) : Prop where
  name : row.get? "name" = some (.string r.name)
  fields : row.get? "field" = r.fields.map (listJson .string)
  conditions : row.get? "condition" = some (listJson Predicate.toJson r.conditions)
  limit : row.get? "limit" = r.limit.map .ofUInt64
  order : row.get? "order" = r.order.map Order.toJson

theorem RelationSpec.writtenIn_toJson (r : RelationSpec) : ∃ row, r.toJson = .object row.entries ∧ r.WrittenIn row := by
  refine ⟨_, rfl, ?_⟩
  constructor <;> simp [Dict.ofList, Dict.addAll_append, Dict.addAll_cons, get?_addAll_memberOf, Dict.get?_insert]

namespace Descriptor

/-- No list that is present is empty, and no limit is zero. -/
structure Filled (d : Descriptor) : Prop where
  relations : ∀ relations ∈ d.relations, relations ≠ [] ∧ ∀ r ∈ relations, r.Filled
  joins : ∀ joins ∈ d.joins, joins ≠ []
  whereIn : ∀ m ∈ d.whereIn, m.items ≠ []
  whereNotIn : ∀ m ∈ d.whereNotIn, m.items ≠ []
  whereAll : ∀ ps ∈ d.whereAll, ps ≠ []
  whereAny : ∀ ps ∈ d.whereAny, ps ≠ []
  limit : d.limit ≠ some 0

/-- A row has the members that are written of a descriptor. -/
structure WrittenIn (d : Descriptor) (row : Row) : Prop where
  relations : row.get? "relation" = d.relations.map (listJson RelationSpec.toJson)
  joins : row.get? "join" = d.joins.map (listJson JoinSpec.toJson)
  whereIn : row.get? "whereIn" = d.whereIn.map Membership.toJson
  whereNotIn : row.get? "whereNotIn" = d.whereNotIn.map Membership.toJson
  whereAll : row.get? "where" = d.whereAll.map (listJson Predicate.toJson)
  whereAny : row.get? "orWhere" = d.whereAny.map (listJson Predicate.toJson)
  whereDate : row.get? "whereDate" = d.whereDate.map Predicate.toJson
  whereMonth : row.get? "whereMonth" = d.whereMonth.map Predicate.toJson
  between : row.get? "between" = d.between.map Range.toJson
  order : row.get? "order" = d.order.map Order.toJson
  limit : row.get? "limit" = d.limit.map .ofUInt64

theorem writtenIn_toJson (d : Descriptor) : ∃ row, d.toJson = .object row.entries ∧ d.WrittenIn row := by
  refine ⟨_, rfl, ?_⟩
  constructor <;> simp [Dict.ofList, Dict.addAll_append, get?_addAll_memberOf]

variable {α : Type}

theorem readPredicate_toJson (fragment : Fragment) (p : Predicate) : readPredicate fragment p.toJson = .ok p := rfl

theorem readJoin_toJson (j : JoinSpec) : readJoin j.toJson = .ok j := rfl

theorem readRange_toJson (r : Range) : readRange r.toJson = .ok r := rfl

theorem readDirection_name (d : Direction) : readDirection d.name = .ok d := by
  have htoken : Text.lowered (Text.trimmed d.name) = d.name := by cases d <;> decide
  rw [readDirection, htoken]
  cases d <;> rfl

theorem readOrder_toJson (fragment : Fragment) (o : Order) : readOrder fragment o.toJson = .ok o := by
  simp only [Order.toJson, readOrder, readText, orderOf, readDirection_name, bind, Except.bind]

theorem readMembership_toJson (fragment : Fragment) (m : Membership) : readMembership fragment m.toJson = .ok m := by
  cases m with
  | pair column values => rfl
  | ignored items arity =>
      show membershipOf fragment items = _
      rcases items with _ | ⟨a, _ | ⟨b, _ | ⟨c, rest⟩⟩⟩
      · rfl
      · simp [membershipOf]
      · exact absurd rfl arity
      · simp [membershipOf]

theorem readLimit_ofUInt64 (fragment : Fragment) (n : UInt64) : readLimit fragment (.ofUInt64 n) = .ok n := by
  have hlimit : limit? (.ofUInt64 n) = some n := Integer.uint64?_ofUInt64 n
  rw [readLimit, hlimit]

theorem readList_listJson (fragment : Fragment) {read : Json → Except Malformed α} {write : α → Json} {l : List α}
    (h : ∀ a ∈ l, read (write a) = .ok a) : readList fragment read (listJson write l) = .ok l := by
  show (l.map write).mapM read = .ok l
  rw [Outcome.mapM_eq_ok, List.forall₂_map_left_iff, List.forall₂_same]
  exact h

theorem given?_of_get? {row : Row} {name : String} {a : Option Json} (h : row.get? name = a)
    (htruthy : ∀ x ∈ a, x.isTruthy = true) : given? row.entries name = a := by
  rw [given?, ← Dict.get?, h]
  cases a with
  | none => rfl
  | some x => simp [htruthy x rfl]

/-- A member that counts as given is read back, and without the member nothing is read. -/
theorem mapM_given? (write : α → Json) {read : Json → Except Malformed α} {a : Option α} {row : Row} {name : String}
    (hget : row.get? name = a.map write) (htruthy : ∀ x ∈ a, (write x).isTruthy = true)
    (hread : ∀ x ∈ a, read (write x) = .ok x) : (given? row.entries name).mapM read = .ok a := by
  rw [given?_of_get? hget (by simpa using htruthy)]
  cases a with
  | none => rfl
  | some x => simp [hread x rfl, Functor.map, Except.map]

theorem isTruthy_listJson {write : α → Json} {l : List α} (h : l ≠ []) : (listJson write l).isTruthy = true := by
  cases l with
  | nil => exact absurd rfl h
  | cons a rest => rfl

theorem mapM_given?_list (fragment : Fragment) (write : α → Json) {read : Json → Except Malformed α}
    {a : Option (List α)} {row : Row} {name : String} (hget : row.get? name = a.map (listJson write))
    (hne : ∀ l ∈ a, l ≠ []) (hread : ∀ l ∈ a, ∀ x ∈ l, read (write x) = .ok x) :
    (given? row.entries name).mapM (readList fragment read) = .ok a :=
  mapM_given? (listJson write) hget (fun l hl => isTruthy_listJson (hne l hl))
    fun l hl => readList_listJson fragment (hread l hl)

theorem isTruthy_ofUInt64 {n : UInt64} (h : n ≠ 0) : (Json.ofUInt64 n).isTruthy = true := by
  have hne : n.toNat ≠ 0 := fun hzero => h (UInt64.toNat_inj.mp hzero)
  simp only [Json.ofUInt64, Json.isTruthy, Number.isZero, Integer.ofUInt64, Bool.not_eq_true', beq_eq_false_iff_ne]
  omega

theorem isTruthy_membership {m : Membership} (h : m.items ≠ []) : m.toJson.isTruthy = true := by
  simpa [Membership.toJson, Json.isTruthy] using h

theorem readRelation_of_written {r : RelationSpec} {row : Row} (hr : r.WrittenIn row) (h : r.Filled) :
    readRelation (.object row.entries) = .ok r := by
  have hname : required .relation .relationName row.entries "name" = .ok (.string r.name) := by
    rw [required, ← Dict.get?, hr.name]
  have hfields : (given? row.entries "field").mapM readFields = .ok r.fields :=
    mapM_given? (listJson .string) hr.fields (fun fields hmem => isTruthy_listJson (h.fields fields hmem))
      fun _ _ => readList_listJson .relationField fun _ _ => rfl
  have hconditions : ∃ given, (given? row.entries "condition").mapM
      (readList .relationCondition (readPredicate .relationCondition)) = .ok given ∧ given.getD [] = r.conditions := by
    -- An empty list of conditions is written, and read as no list at all.
    by_cases hnone : r.conditions = []
    · rw [given?, ← Dict.get?, hr.conditions, hnone]
      exact ⟨none, rfl, rfl⟩
    · refine ⟨some r.conditions, mapM_given?_list .relationCondition Predicate.toJson hr.conditions ?_ ?_, rfl⟩
      · simpa using hnone
      · exact fun _ _ p _ => readPredicate_toJson .relationCondition p
  have hlimit : (given? row.entries "limit").mapM (readLimit .relationLimit) = .ok r.limit :=
    mapM_given? .ofUInt64 hr.limit (fun n hmem => isTruthy_ofUInt64 fun hzero => h.limit (hzero ▸ hmem))
      fun n _ => readLimit_ofUInt64 .relationLimit n
  have horder : (given? row.entries "order").mapM (readOrder .relationOrder) = .ok r.order :=
    mapM_given? Order.toJson hr.order (fun _ _ => rfl) fun o _ => readOrder_toJson .relationOrder o
  obtain ⟨conditions, hconditions, hgiven⟩ := hconditions
  simp only [readRelation, hname, readText, hfields, hconditions, hlimit, horder, hgiven, bind, Except.bind]

theorem readRelation_toJson {r : RelationSpec} (h : r.Filled) : readRelation r.toJson = .ok r := by
  obtain ⟨row, hjson, hrow⟩ := r.writtenIn_toJson
  rw [hjson]
  exact readRelation_of_written hrow h

theorem ofMembers_of_written {d : Descriptor} {row : Row} (hd : d.WrittenIn row) (h : d.Filled) :
    ofMembers row.entries = .ok d := by
  have hrelations : (given? row.entries "relation").mapM (readList .relation readRelation) = .ok d.relations :=
    mapM_given?_list .relation RelationSpec.toJson hd.relations (fun relations hmem => (h.relations relations hmem).1)
      fun relations hmem r hr => readRelation_toJson ((h.relations relations hmem).2 r hr)
  have hjoins : (given? row.entries "join").mapM (readList .join readJoin) = .ok d.joins :=
    mapM_given?_list .join JoinSpec.toJson hd.joins h.joins fun _ _ j _ => readJoin_toJson j
  have hwhereIn : (given? row.entries "whereIn").mapM (readMembership .whereIn) = .ok d.whereIn :=
    mapM_given? Membership.toJson hd.whereIn (fun m hmem => isTruthy_membership (h.whereIn m hmem))
      fun m _ => readMembership_toJson .whereIn m
  have hwhereNotIn : (given? row.entries "whereNotIn").mapM (readMembership .whereNotIn) = .ok d.whereNotIn :=
    mapM_given? Membership.toJson hd.whereNotIn (fun m hmem => isTruthy_membership (h.whereNotIn m hmem))
      fun m _ => readMembership_toJson .whereNotIn m
  have hwhereAll : (given? row.entries "where").mapM (readList .whereAll (readPredicate .whereAll)) = .ok d.whereAll :=
    mapM_given?_list .whereAll Predicate.toJson hd.whereAll h.whereAll
      fun _ _ p _ => readPredicate_toJson .whereAll p
  have hwhereAny : (given? row.entries "orWhere").mapM (readList .whereAny (readPredicate .whereAny)) =
      .ok d.whereAny :=
    mapM_given?_list .whereAny Predicate.toJson hd.whereAny h.whereAny
      fun _ _ p _ => readPredicate_toJson .whereAny p
  have hwhereDate : (given? row.entries "whereDate").mapM (readPredicate .whereDate) = .ok d.whereDate :=
    mapM_given? Predicate.toJson hd.whereDate (fun _ _ => rfl) fun p _ => readPredicate_toJson .whereDate p
  have hwhereMonth : (given? row.entries "whereMonth").mapM (readPredicate .whereMonth) = .ok d.whereMonth :=
    mapM_given? Predicate.toJson hd.whereMonth (fun _ _ => rfl) fun p _ => readPredicate_toJson .whereMonth p
  have hbetween : (given? row.entries "between").mapM readRange = .ok d.between :=
    mapM_given? Range.toJson hd.between (fun _ _ => rfl) fun r _ => readRange_toJson r
  have horder : (given? row.entries "order").mapM (readOrder .order) = .ok d.order :=
    mapM_given? Order.toJson hd.order (fun _ _ => rfl) fun o _ => readOrder_toJson .order o
  have hlimit : (given? row.entries "limit").mapM (readLimit .limit) = .ok d.limit :=
    mapM_given? .ofUInt64 hd.limit (fun n hmem => isTruthy_ofUInt64 fun hzero => h.limit (hzero ▸ hmem))
      fun n _ => readLimit_ofUInt64 .limit n
  simp only [ofMembers, hrelations, hjoins, hwhereIn, hwhereNotIn, hwhereAll, hwhereAny, hwhereDate, hwhereMonth,
    hbetween, horder, hlimit, bind, Except.bind]

/-- Reading what is written of a descriptor gives the descriptor back, unless a part of it that is present counts as
not given. -/
theorem ofJson_toJson (d : Descriptor) (h : d.Filled) : ofJson d.toJson = .ok d := by
  obtain ⟨row, hjson, hrow⟩ := d.writtenIn_toJson
  rw [hjson]
  exact ofMembers_of_written hrow h

/-- A descriptor with every part. Its first relation is named by an empty text, and one of its membership tests asks
for nothing. -/
def detailed : Descriptor where
  relations := some [
    { name := "" },
    { name := "orders.items", fields := some ["id", "total"], conditions := [⟨"total", ">", .null⟩], limit := some 5,
      order := some ⟨"total", .descending⟩ }]
  joins := some [⟨"orders", "orders.person", "=", "people.id"⟩]
  whereIn := some (.pair "id" (.array [.ofInt64 1, .string "x"]))
  whereNotIn := some (.ignored [.null] (by decide))
  whereAll := some [⟨"name", "=", .bool false⟩]
  whereAny := some [⟨"age", "<", .ofInt64 7⟩, ⟨"age", ">", .null⟩]
  whereDate := some ⟨"born", ">=", .string "2000-01-01"⟩
  whereMonth := some ⟨"born", "=", .ofInt64 12⟩
  between := some ⟨"age", .null, .ofInt64 0⟩
  order := some ⟨"", .ascending⟩
  limit := some 10

theorem ofJson_toJson_detailed : detailed.Filled ∧ ofJson detailed.toJson = .ok detailed := by
  have hfilled : detailed.Filled := by constructor <;> decide
  exact ⟨hfilled, ofJson_toJson detailed hfilled⟩

end Descriptor

end RowQuery
