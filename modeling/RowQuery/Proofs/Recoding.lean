import Mathlib.Logic.Relation
import RowQuery.Proofs.Grammar

namespace RowQuery

theorem Text.splitOn_intercalate {c : Char} {pieces : List (List Char)} (hne : pieces ≠ [])
    (h : ∀ piece ∈ pieces, c ∉ piece) : splitOn c ([c].intercalate pieces) = pieces := by
  induction pieces with
  | nil => exact absurd rfl hne
  | cons piece rest ih =>
      obtain ⟨hpiece, hrest⟩ := List.forall_mem_cons.mp h
      cases rest with
      | nil => rw [List.intercalate_singleton, splitOn_of_not_mem hpiece]
      | cons next rest =>
          rw [List.intercalate_cons_cons, List.append_assoc, List.singleton_append, splitOn_append hpiece,
            ih (List.cons_ne_nil next rest) hrest]

namespace Descriptor

/-- Splitting at commas leaves the text whole. -/
def CommaFree (s : String) : Prop := ',' ∉ s.toList

/-- The text has no blanks around it. -/
def Trimmed (s : String) : Prop := Text.trimmed s = s

instance : DecidablePred CommaFree := fun s => inferInstanceAs (Decidable (',' ∉ s.toList))

instance : DecidablePred Trimmed := fun s => inferInstanceAs (Decidable (Text.trimmed s = s))

/-- What follows the value is dropped, or the three items get their names. -/
inductive PredicateRecoding : Json → Json → Prop
  | truncate (column operator value : Json) (rest : List Json) :
      PredicateRecoding (.array (column :: operator :: value :: rest)) (.array [column, operator, value])
  | named (column operator value : Json) :
      PredicateRecoding (.array [column, operator, value])
        (.record [("column", column), ("operator", operator), ("value", value)])

inductive JoinRecoding : Json → Json → Prop
  | truncate (table tableColumn operator sourceColumn : Json) (rest : List Json) :
      JoinRecoding (.array (table :: tableColumn :: operator :: sourceColumn :: rest))
        (.array [table, tableColumn, operator, sourceColumn])

inductive OrderRecoding : Json → Json → Prop
  | truncate (column direction : Json) (rest : List Json) :
      OrderRecoding (.array (column :: direction :: rest)) (.array [column, direction])
  | text {column direction : String} (hcolumn : CommaFree column) (htrimmed : Trimmed column)
      (hdirection : CommaFree direction) :
      OrderRecoding (.array [.string column, .string direction]) (.string (",".intercalate [column, direction]))

inductive RangeRecoding : Json → Json → Prop
  | truncate (column start stop : Json) (rest : List Json) :
      RangeRecoding (.array (column :: start :: stop :: rest)) (.array [column, start, stop])
  | text {column start stop : String} (hcommas : ∀ s ∈ [column, start, stop], CommaFree s)
      (htrimmed : ∀ s ∈ [column, start, stop], Trimmed s) :
      RangeRecoding (.array [.string column, .string start, .string stop])
        (.string (",".intercalate [column, start, stop]))

inductive FieldsRecoding : Json → Json → Prop
  | text (names : List String) (hcommas : ∀ name ∈ names, CommaFree name) (htrimmed : ∀ name ∈ names, Trimmed name)
      (hempty : ",".intercalate names ≠ "") (hzero : ",".intercalate names ≠ "0") :
      FieldsRecoding (.array (names.map .string)) (.string (",".intercalate names))

/-- One item of a list is recoded. -/
inductive ItemRecoding (recoding : Json → Json → Prop) : Json → Json → Prop
  | item (before after : List Json) {a b : Json} (h : recoding a b) :
      ItemRecoding recoding (.array (before ++ a :: after)) (.array (before ++ b :: after))

def without (members : List (String × Json)) (name : String) : List (String × Json) :=
  members.filter fun member => member.1 ≠ name

/-- One member of an object is left out, since its name is unknown or its value counts as not given, or the value of
one member is recoded. -/
inductive MembersRecoding (needed optional : List String) (part : String → Json → Json → Prop) :
    List (String × Json) → List (String × Json) → Prop
  | unknown (members : List (String × Json)) {name : String} (hneeded : name ∉ needed) (hoptional : name ∉ optional) :
      MembersRecoding needed optional part members (without members name)
  | falsy {members : List (String × Json)} {name : String} {a : Json} (hoptional : name ∈ optional)
      (hlookup : members.lookup name = some a) (hfalsy : a.isTruthy = false) :
      MembersRecoding needed optional part members (without members name)
  | part (before after : List (String × Json)) {name : String} {a b : Json} (h : part name a b) :
      MembersRecoding needed optional part (before ++ (name, a) :: after) (before ++ (name, b) :: after)

/-- The other forms of the members of a request for related rows. -/
def RelationPart : String → Json → Json → Prop
  | "field" => FieldsRecoding
  | "condition" => ItemRecoding PredicateRecoding
  | "order" => OrderRecoding
  | _ => fun _ _ => False

inductive RelationRecoding : Json → Json → Prop
  | object {members members' : List (String × Json)}
      (h : MembersRecoding ["name"] ["field", "condition", "limit", "order"] RelationPart members members') :
      RelationRecoding (.object members) (.object members')

/-- The other forms of the members of a descriptor. -/
def Part : String → Json → Json → Prop
  | "relation" => ItemRecoding RelationRecoding
  | "join" => ItemRecoding JoinRecoding
  | "where" | "orWhere" => ItemRecoding PredicateRecoding
  | "whereDate" | "whereMonth" => PredicateRecoding
  | "between" => RangeRecoding
  | "order" => OrderRecoding
  | _ => fun _ _ => False

def partNames : List String :=
  ["relation", "join", "whereIn", "whereNotIn", "where", "orWhere", "whereDate", "whereMonth", "between", "order",
    "limit"]

/-- Another way to write a descriptor: a member less, or a part in another form. -/
inductive Recoding : Json → Json → Prop
  | object {members members' : List (String × Json)} (h : MembersRecoding [] partNames Part members members') :
      Recoding (.object members) (.object members')

variable {α : Type} {a b : Json}

/-- Names without commas are split apart again, with the blanks around them lost. -/
theorem tokens_intercalate {names : List String} (hne : names ≠ []) (hcommas : ∀ name ∈ names, CommaFree name) :
    tokens (",".intercalate names) = names.map Text.trimmed := by
  have hpieces : Text.splitOn ',' (",".intercalate names).toList = names.map String.toList := by
    rw [String.toList_intercalate]
    exact Text.splitOn_intercalate (by simpa using hne) (by simpa [CommaFree] using hcommas)
  rw [tokens_eq, hpieces, List.map_map]
  rfl

theorem tokens_of_trimmed {names : List String} (hne : names ≠ []) (hcommas : ∀ name ∈ names, CommaFree name)
    (htrimmed : ∀ name ∈ names, Trimmed name) : tokens (",".intercalate names) = names := by
  rw [tokens_intercalate hne hcommas]
  exact (List.map_congr_left htrimmed).trans (List.map_id _)

theorem isTruthy_string {s : String} (hempty : s ≠ "") (hzero : s ≠ "0") : (Json.string s).isTruthy = true := by
  simp [Json.isTruthy, hempty, hzero]

theorem isTruthy_intercalate (first second : String) (rest : List String) :
    (Json.string (",".intercalate (first :: second :: rest))).isTruthy = true := by
  have hcomma : ',' ∈ (",".intercalate (first :: second :: rest)).toList := by
    rw [String.toList_intercalate, List.map_cons, List.map_cons, List.intercalate_cons_cons]
    simp
  have hne : ∀ s : String, ',' ∉ s.toList → ",".intercalate (first :: second :: rest) ≠ s := by
    rintro _ hs rfl
    exact hs hcomma
  exact isTruthy_string (hne "" (by decide)) (hne "0" (by decide))

theorem readDirection_trimmed (s : String) : readDirection (Text.trimmed s) = readDirection s := by
  have htrimmed : Text.trimmed (Text.trimmed s) = Text.trimmed s := by
    simp only [Text.trimmed, String.toList_ofList, Text.trim_trim]
  rw [readDirection, htrimmed]
  rfl

/-- Two values that count as given and are read alike, up to what they are refused with. -/
structure ReadAlike (read : Json → Except Malformed α) (a b : Json) : Prop where
  given : a.isTruthy = true
  given' : b.isTruthy = true
  outcome : (read b).toOption = (read a).toOption

theorem PredicateRecoding.readAlike (h : PredicateRecoding a b) (fragment : Fragment) :
    ReadAlike (readPredicate fragment) a b := by
  cases h with
  | truncate => exact ⟨rfl, rfl, rfl⟩
  | named column operator value =>
      let row : Row := .ofList [("column", column), ("operator", operator), ("value", value)]
      have hcolumn : row.entries.lookup "column" = some column := by
        show row.get? "column" = _
        simp [row, Dict.ofList, Dict.addAll, Dict.get?_insert]
      have hoperator : row.entries.lookup "operator" = some operator := by
        show row.get? "operator" = _
        simp [row, Dict.ofList, Dict.addAll, Dict.get?_insert]
      have hvalue : row.entries.lookup "value" = some value := by
        show row.get? "value" = _
        simp [row, Dict.ofList, Dict.addAll]
      refine ⟨rfl, ?_, ?_⟩
      · show (!row.entries.isEmpty) = true
        cases hentries : row.entries with
        | nil => simp [hentries] at hcolumn
        | cons => rfl
      · show (readPredicate fragment (.object row.entries)).toOption = _
        simp only [readPredicate, required, hcolumn, hoperator, hvalue]
        rfl

theorem JoinRecoding.outcome (h : JoinRecoding a b) : (readJoin b).toOption = (readJoin a).toOption := by
  cases h with
  | truncate => rfl

theorem OrderRecoding.readAlike (h : OrderRecoding a b) (fragment : Fragment) :
    ReadAlike (readOrder fragment) a b := by
  cases h with
  | truncate => exact ⟨rfl, rfl, rfl⟩
  | @text column direction hcolumn htrimmed hdirection =>
      have htokens : tokens (",".intercalate [column, direction]) = [column, Text.trimmed direction] := by
        rw [tokens_intercalate (List.cons_ne_nil _ _) (by simp [hcolumn, hdirection])]
        simp [show Text.trimmed column = column from htrimmed]
      refine ⟨rfl, isTruthy_intercalate _ _ _, ?_⟩
      simp only [readOrder, htokens, readText, orderOf, readDirection_trimmed, bind, Except.bind]

theorem RangeRecoding.readAlike (h : RangeRecoding a b) : ReadAlike readRange a b := by
  cases h with
  | truncate => exact ⟨rfl, rfl, rfl⟩
  | @text column start stop hcommas htrimmed =>
      have htokens : tokens (",".intercalate [column, start, stop]) = [column, start, stop] :=
        tokens_of_trimmed (List.cons_ne_nil _ _) hcommas htrimmed
      refine ⟨rfl, isTruthy_intercalate _ _ _, ?_⟩
      simp only [readRange, htokens, readText]
      rfl

theorem FieldsRecoding.readAlike (h : FieldsRecoding a b) : ReadAlike readFields a b := by
  cases h with
  | text names hcommas htrimmed hempty hzero =>
      have hne : names ≠ [] := by
        rintro rfl
        exact hempty rfl
      have hlist : readFields (.array (names.map .string)) = .ok names :=
        readList_listJson .relationField fun _ _ => rfl
      refine ⟨isTruthy_listJson hne, isTruthy_string hempty hzero, ?_⟩
      rw [hlist, readFields, tokens_of_trimmed hne hcommas htrimmed]

theorem ItemRecoding.readAlike {recoding : Json → Json → Prop} {read : Json → Except Malformed α}
    (h : ItemRecoding recoding a b) (fragment : Fragment)
    (hread : ∀ {a b}, recoding a b → (read b).toOption = (read a).toOption) :
    ReadAlike (readList fragment read) a b := by
  cases h with
  | @item before after a b h =>
      refine ⟨by simp [Json.isTruthy], by simp [Json.isTruthy], ?_⟩
      simp only [readList, List.mapM_append, List.mapM_cons, Outcome.toOption_bind, hread h]

theorem readAlike_predicates (h : ItemRecoding PredicateRecoding a b) (fragment : Fragment) :
    ReadAlike (readList fragment (readPredicate fragment)) a b :=
  h.readAlike fragment fun hitem => (hitem.readAlike fragment).outcome

theorem lookup_without (members : List (String × Json)) (name other : String) :
    (without members name).lookup other = if other = name then none else members.lookup other := by
  induction members with
  | nil => simp [without]
  | cons member rest ih =>
      have hcons : without (member :: rest) name =
          if member.1 = name then without rest name else member :: without rest name := by
        rw [without, List.filter_cons]
        simp [without]
      rw [hcons]
      by_cases hother : other = name
      · subst hother
        rw [if_pos rfl] at ih ⊢
        split
        · exact ih
        · rename_i hmember
          rw [List.lookup_cons, beq_false_of_ne (Ne.symm hmember)]
          exact ih
      · rw [if_neg hother] at ih ⊢
        split
        · rename_i hmember
          rw [ih, List.lookup_cons, beq_false_of_ne (hmember ▸ hother)]
        · rw [List.lookup_cons, List.lookup_cons, ih]

theorem lookup_replace (before after : List (String × Json)) {name other : String} {a b : Json} (h : other ≠ name) :
    (before ++ (name, b) :: after).lookup other = (before ++ (name, a) :: after).lookup other := by
  simp [List.lookup_append, List.lookup_cons, beq_false_of_ne h]

variable {needed optional : List String} {part : String → Json → Json → Prop} {members members' : List (String × Json)}

/-- A member that may not be left out, and has no other form, is found as before. -/
theorem MembersRecoding.lookup_eq (h : MembersRecoding needed optional part members members') {name : String}
    (hneeded : name ∈ needed) (hoptional : name ∉ optional) (hpart : ∀ a b, ¬part name a b) :
    members'.lookup name = members.lookup name := by
  cases h with
  | unknown _ hunknown => rw [lookup_without, if_neg (ne_of_mem_of_not_mem hneeded hunknown)]
  | falsy hmem => rw [lookup_without, if_neg (ne_of_mem_of_not_mem hmem hoptional).symm]
  | @part before after other a b h =>
      refine lookup_replace before after ?_
      rintro rfl
      exact hpart a b h

theorem MembersRecoding.outcome (h : MembersRecoding needed optional part members members') (name : String)
    (read : Json → Except Malformed α) (hname : name ∈ optional) (hread : ∀ {a b}, part name a b → ReadAlike read a b) :
    ((given? members' name).mapM read).toOption = ((given? members name).mapM read).toOption := by
  cases h with
  | unknown _ _ hunknown => rw [given?, lookup_without, if_neg (ne_of_mem_of_not_mem hname hunknown), given?]
  | @falsy _ other a _ hlookup hfalsy =>
      rw [given?, given?, lookup_without]
      split
      · rename_i hother
        rw [hother, hlookup, Option.filter_some, hfalsy]
        rfl
      · rfl
  | @part before after other a b h =>
      by_cases hother : name = other
      -- A member of the same name that stands before this one hides it, in both forms.
      · subst hother
        obtain ⟨hgiven, hgiven', houtcome⟩ := hread h
        rw [given?, given?, List.lookup_append, List.lookup_append]
        cases before.lookup name with
        | some => rfl
        | none =>
            simp only [List.lookup_cons_self, Option.none_or, Option.filter_some, hgiven, hgiven', if_true,
              Option.mapM_some, map_eq_pure_bind, Outcome.toOption_bind, houtcome]
      · rw [given?, lookup_replace before after hother, given?]

theorem RelationRecoding.outcome (h : RelationRecoding a b) :
    (readRelation b).toOption = (readRelation a).toOption := by
  cases h with
  | @object members members' h =>
      have hname : members'.lookup "name" = members.lookup "name" :=
        h.lookup_eq List.mem_cons_self (by decide) fun _ _ => id
      have hfields := h.outcome "field" readFields (by decide) FieldsRecoding.readAlike
      have hconditions := h.outcome "condition" (readList .relationCondition (readPredicate .relationCondition))
        (by decide) fun hpart => readAlike_predicates hpart .relationCondition
      have hlimit := h.outcome "limit" (readLimit .relationLimit) (by decide) False.elim
      have horder := h.outcome "order" (readOrder .relationOrder) (by decide)
        fun hpart => OrderRecoding.readAlike hpart .relationOrder
      simp only [readRelation, required, Outcome.toOption_bind, hname, hfields, hconditions, hlimit, horder]

theorem MembersRecoding.descriptor (h : MembersRecoding [] partNames Part members members') :
    (ofMembers members').toOption = (ofMembers members).toOption := by
  have hrelations := h.outcome "relation" (readList .relation readRelation) (by decide)
    fun hpart => ItemRecoding.readAlike hpart .relation RelationRecoding.outcome
  have hjoins := h.outcome "join" (readList .join readJoin) (by decide)
    fun hpart => ItemRecoding.readAlike hpart .join JoinRecoding.outcome
  have hwhereIn := h.outcome "whereIn" (readMembership .whereIn) (by decide) False.elim
  have hwhereNotIn := h.outcome "whereNotIn" (readMembership .whereNotIn) (by decide) False.elim
  have hwhereAll := h.outcome "where" (readList .whereAll (readPredicate .whereAll)) (by decide)
    fun hpart => readAlike_predicates hpart .whereAll
  have hwhereAny := h.outcome "orWhere" (readList .whereAny (readPredicate .whereAny)) (by decide)
    fun hpart => readAlike_predicates hpart .whereAny
  have hwhereDate := h.outcome "whereDate" (readPredicate .whereDate) (by decide)
    fun hpart => PredicateRecoding.readAlike hpart .whereDate
  have hwhereMonth := h.outcome "whereMonth" (readPredicate .whereMonth) (by decide)
    fun hpart => PredicateRecoding.readAlike hpart .whereMonth
  have hbetween := h.outcome "between" readRange (by decide) RangeRecoding.readAlike
  have horder := h.outcome "order" (readOrder .order) (by decide) fun hpart => OrderRecoding.readAlike hpart .order
  have hlimit := h.outcome "limit" (readLimit .limit) (by decide) False.elim
  simp only [ofMembers, Outcome.toOption_bind, hrelations, hjoins, hwhereIn, hwhereNotIn, hwhereAll, hwhereAny,
    hwhereDate, hwhereMonth, hbetween, horder, hlimit]

theorem Recoding.outcome (h : Recoding a b) : (ofJson b).toOption = (ofJson a).toOption := by
  cases h with
  | object h => exact h.descriptor

/-- However a descriptor is recoded, it is refused as before or read as the same descriptor. -/
theorem recodings_collapse {a b : Json} (h : Relation.ReflTransGen Recoding a b) :
    (ofJson b).toOption = (ofJson a).toOption := by
  induction h with
  | refl => rfl
  | tail _ hstep ih => exact hstep.outcome.trans ih

/-- A descriptor with lists that are too long, a member that is not known and members that count as not given. -/
def longhand : Json :=
  .object [("between", .array [.string "age", .string "18", .string "65", .null]), ("extra", .bool true),
    ("limit", .string "0"), ("order", .array [.string "name", .string " DESC "]),
    ("relation", .array [.object [("field", .array [.string "id", .string "total"]), ("limit", .bool false),
      ("name", .string "orders")]]),
    ("where", .array [.array [.string "age", .string ">", .null, .string "age"]])]

/-- The same descriptor with nothing in it that is passed over, and texts instead of lists. -/
def shorthand : Json :=
  .object [("between", .string (",".intercalate ["age", "18", "65"])),
    ("order", .string (",".intercalate ["name", " DESC "])),
    ("relation", .array [.object [("field", .string (",".intercalate ["id", "total"])), ("name", .string "orders")]]),
    ("where", .array [.record [("column", .string "age"), ("operator", .string ">"), ("value", .null)]])]

theorem recodings_collapse_shorthand : Relation.ReflTransGen Recoding longhand shorthand ∧
    (ofJson shorthand).toOption = (ofJson longhand).toOption ∧ (ofJson shorthand).toOption.isSome = true := by
  have hchain : Relation.ReflTransGen Recoding longhand shorthand := by
    have hfields : FieldsRecoding (.array [.string "id", .string "total"])
        (.string (",".intercalate ["id", "total"])) :=
      .text ["id", "total"] (by decide) (by decide) (by decide) (by decide)
    refine .head (.object (.part [] _ (RangeRecoding.truncate _ _ _ _))) ?_
    refine .head (.object (.part [] _ (RangeRecoding.text (by decide) (by decide)))) ?_
    refine .head (.object (.part [_, _, _] _ (OrderRecoding.text (by decide) (by decide) (by decide)))) ?_
    refine .head (.object (.part [_, _, _, _] [_] (ItemRecoding.item [] [] (.object (.part [] _ hfields))))) ?_
    refine .head (.object (.part [_, _, _, _] [_]
      (ItemRecoding.item [] [] (.object (.falsy (by decide : "limit" ∈ _) rfl rfl))))) ?_
    refine .head (.object (.part [_, _, _, _, _] [] (ItemRecoding.item [] [] (.truncate _ _ _ _)))) ?_
    refine .head (.object (.part [_, _, _, _, _] [] (ItemRecoding.item [] [] (.named _ _ _)))) ?_
    refine .head (.object (.unknown _ (by decide : "extra" ∉ _) (by decide))) ?_
    refine .head (.object (.falsy (by decide : "limit" ∈ _) rfl rfl)) ?_
    exact .refl
  exact ⟨hchain, recodings_collapse hchain, by decide⟩

end Descriptor

end RowQuery
