import RowQuery.Proofs.Grammar

namespace RowQuery

namespace Grammar

/-- A part of an object that may be left out: the name and the shape of its member, and the fragment to which a value of
another shape belongs. -/
structure Part where
  name : String
  shape : Json → Prop
  blames : Json → Fragment → Prop

/-- A part that is one fragment as a whole. -/
def Part.whole (name : String) (own : Fragment) (shape : Json → Prop) : Part :=
  ⟨name, shape, fun _ fragment => fragment = own⟩

/-- The fragment of the first of the parts that is given and does not have its shape. -/
inductive FirstFault (members : List (String × Json)) : List Part → Fragment → Prop
  | here {part : Part} {rest : List Part} {fragment : Fragment} {a : Json}
      (hgiven : members.lookup part.name = some a) (htruthy : a.isTruthy = true) (hshape : ¬part.shape a)
      (hblames : part.blames a fragment) : FirstFault members (part :: rest) fragment
  | later {part : Part} {rest : List Part} {fragment : Fragment} (hpart : MemberIs members part.name part.shape)
      (h : FirstFault members rest fragment) : FirstFault members (part :: rest) fragment

/-- What is no list is at fault itself, and in a list the first item without its shape is. -/
inductive ListBlames (own : Fragment) (shape : Json → Prop) (blames : Json → Fragment → Prop) : Json → Fragment → Prop
  | list {a : Json} (h : ∀ items, a ≠ .array items) : ListBlames own shape blames a own
  | item {before after : List Json} {a : Json} {fragment : Fragment} (hbefore : ∀ b ∈ before, shape b)
      (hshape : ¬shape a) (hblames : blames a fragment) :
      ListBlames own shape blames (.array (before ++ a :: after)) fragment

/-- What has a column and a direction, whatever the direction is. -/
inductive IsOrderForm : Json → Prop
  | text {s : String} (hcommas : s.toList.count ',' = 1) : IsOrderForm (.string s)
  | list (column direction : String) (rest : List Json) :
      IsOrderForm (.array (.string column :: .string direction :: rest))

/-- An order is at fault for its form or for its direction. -/
inductive OrderBlames (own direction : Fragment) : Json → Fragment → Prop
  | form {a : Json} (h : ¬IsOrderForm a) : OrderBlames own direction a own
  | direction {a : Json} (h : IsOrderForm a) : OrderBlames own direction a direction

/-- The parts of a request for related rows besides its name, where faulty directions belong to a given fragment. -/
def relationParts (direction : Fragment) : List Part :=
  [.whole "field" .relationField IsFields,
    .whole "condition" .relationCondition (IsListOf IsPredicate),
    .whole "limit" .relationLimit IsLimit,
    ⟨"order", IsOrder, OrderBlames .relationOrder direction⟩]

inductive RelationBlames (direction : Fragment) : Json → Fragment → Prop
  | unnamed {a : Json} (h : ∀ members name, a = .object members → members.lookup "name" ≠ some (.string name)) :
      RelationBlames direction a .relation
  | part {members : List (String × Json)} {name : String} {fragment : Fragment}
      (hname : members.lookup "name" = some (.string name))
      (h : FirstFault members (relationParts direction) fragment) : RelationBlames direction (.object members) fragment

/-- The parts of a descriptor in the order in which they are read, where faulty directions inside a request for related
rows belong to a given fragment. -/
def parts (direction : Fragment) : List Part :=
  [⟨"relation", IsListOf (IsRelation IsLimit),
      ListBlames .relation (IsRelation IsLimit) (RelationBlames direction)⟩,
    .whole "join" .join (IsListOf IsJoin),
    .whole "whereIn" .whereIn IsMembership,
    .whole "whereNotIn" .whereNotIn IsMembership,
    .whole "where" .whereAll (IsListOf IsPredicate),
    .whole "orWhere" .whereAny (IsListOf IsPredicate),
    .whole "whereDate" .whereDate IsPredicate,
    .whole "whereMonth" .whereMonth IsPredicate,
    .whole "between" .between IsRange,
    .whole "order" .order IsOrder,
    .whole "limit" .limit IsLimit]

variable {members : List (String × Json)} {part : Part} {fragment : Fragment}

theorem memberIs_of_none {name : String} (h : members.lookup name = none) (shape : Json → Prop) :
    MemberIs members name shape := by
  simp [MemberIs, h]

theorem not_firstFault_nil : ¬FirstFault members [] fragment := by
  rintro ⟨⟩

theorem firstFault_cons {rest : List Part} : FirstFault members (part :: rest) fragment ↔
    (∃ a, members.lookup part.name = some a ∧ a.isTruthy = true ∧ ¬part.shape a ∧ part.blames a fragment) ∨
      MemberIs members part.name part.shape ∧ FirstFault members rest fragment := by
  constructor
  · intro h
    cases h with
    | here hgiven htruthy hshape hblames => exact .inl ⟨_, hgiven, htruthy, hshape, hblames⟩
    | later hpart h => exact .inr ⟨hpart, h⟩
  · rintro (⟨a, hgiven, htruthy, hshape, hblames⟩ | ⟨hpart, h⟩)
    · exact .here hgiven htruthy hshape hblames
    · exact .later hpart h

/-- Nothing counts but the members up to the first one that is at fault. -/
theorem firstFault_congr {members' : List (String × Json)} {before after : List Part}
    (hfault : ¬MemberIs members part.name part.shape)
    (hsame : ∀ p ∈ before ++ [part], members'.lookup p.name = members.lookup p.name) :
    FirstFault members' (before ++ part :: after) fragment ↔ FirstFault members (before ++ part :: after) fragment := by
  induction before with
  | nil =>
      have hpart : members'.lookup part.name = members.lookup part.name := hsame part List.mem_cons_self
      have hfault' : ¬MemberIs members' part.name part.shape := by rwa [MemberIs, hpart]
      simp only [List.nil_append, firstFault_cons, hpart, hfault, hfault', false_and]
  | cons p before ih =>
      rw [List.cons_append, List.forall_mem_cons] at hsame
      simp only [List.cons_append, firstFault_cons, MemberIs, hsame.1, ih hsame.2]

theorem orderBlames_of_form {own direction : Fragment} {a : Json} (h : IsOrderForm a) :
    OrderBlames own direction a fragment ↔ fragment = direction := by
  constructor
  · rintro (h' | -)
    · exact absurd h h'
    · rfl
  · rintro rfl
    exact .direction h

theorem orderBlames_of_not_form {own direction : Fragment} {a : Json} (h : ¬IsOrderForm a) :
    OrderBlames own direction a fragment ↔ fragment = own := by
  constructor
  · rintro (- | h')
    · rfl
    · exact absurd h' h
  · rintro rfl
    exact .form h

theorem relationBlames_of_name {direction : Fragment} {name : String}
    (hname : members.lookup "name" = some (.string name)) :
    RelationBlames direction (.object members) fragment ↔ FirstFault members (relationParts direction) fragment := by
  constructor
  · rintro (h | ⟨-, h⟩)
    · exact absurd hname (h members name rfl)
    · exact h
  · exact .part hname

theorem relationBlames_of_unnamed {direction : Fragment} {a : Json}
    (h : ∀ members name, a = .object members → members.lookup "name" ≠ some (.string name)) :
    RelationBlames direction a fragment ↔ fragment = .relation := by
  constructor
  · rintro (- | ⟨hname, -⟩)
    · rfl
    · exact absurd hname (h _ _ rfl)
  · rintro rfl
    exact .unnamed h

end Grammar

namespace Descriptor

open Grammar

variable {α β : Type} {shape : Json → Prop} {fragment own : Fragment}

/-- The reading fails for a fault of a fragment. -/
def Blames (x : Except Malformed α) (fragment : Fragment) : Prop := ∃ fault, x = .error ⟨fragment, fault⟩

theorem not_blames_ok (x : α) : ¬Blames (.ok x) fragment := by
  rintro ⟨_, ⟨⟩⟩

theorem blames_error {fault : Fault} : Blames (.error ⟨own, fault⟩ : Except Malformed α) fragment ↔ fragment = own := by
  simp [Blames, eq_comm]

theorem blames_bind {x : Except Malformed α} {f : α → Except Malformed β} :
    Blames (x >>= f) fragment ↔ Blames x fragment ∨ ∃ a, x = .ok a ∧ Blames (f a) fragment := by
  cases x <;> simp [Blames, bind, Except.bind]

/-- If the reading fails, it is for a fault of the given fragment. -/
def BlamesOnly (own : Fragment) (x : Except Malformed α) : Prop := ∀ fragment, Blames x fragment → fragment = own

theorem blamesOnly_ok (x : α) : BlamesOnly own (.ok x) := by
  rintro _ ⟨_, ⟨⟩⟩

theorem blamesOnly_error (fault : Fault) : BlamesOnly own (.error ⟨own, fault⟩ : Except Malformed α) := by
  rintro _ ⟨_, ⟨⟩⟩
  rfl

theorem BlamesOnly.bind {x : Except Malformed α} {f : α → Except Malformed β} (hx : BlamesOnly own x)
    (hf : ∀ a, BlamesOnly own (f a)) : BlamesOnly own (x >>= f) := by
  intro fragment h
  rcases blames_bind.mp h with h | ⟨a, -, h⟩
  · exact hx fragment h
  · exact hf a fragment h

theorem blamesOnly_readText (component : Component) (a : Json) : BlamesOnly own (readText own component a) := by
  cases a with
  | string s => exact blamesOnly_ok s
  | _ => exact blamesOnly_error _

theorem blamesOnly_required (component : Component) (members : List (String × Json)) (name : String) :
    BlamesOnly own (required own component members name) := by
  unfold required
  cases members.lookup name with
  | some a => exact blamesOnly_ok a
  | none => exact blamesOnly_error _

theorem blamesOnly_readList {read : Json → Except Malformed α} (h : ∀ a, BlamesOnly own (read a)) (a : Json) :
    BlamesOnly own (readList own read a) := by
  cases a with
  | array items =>
      rintro fragment ⟨fault, hfault⟩
      obtain ⟨_, b, _, _, _, hb⟩ := Outcome.mapM_eq_error.mp hfault
      exact h b fragment ⟨fault, hb⟩
  | _ => exact blamesOnly_error _

theorem blamesOnly_readPredicate (a : Json) : BlamesOnly own (readPredicate own a) := by
  cases a with
  | object members =>
      exact (blamesOnly_required _ _ _).bind fun _ => (blamesOnly_required _ _ _).bind fun _ =>
        (blamesOnly_readText _ _).bind fun _ => (blamesOnly_readText _ _).bind fun _ => blamesOnly_ok _
  | array items =>
      rcases items with _ | ⟨column, _ | ⟨operator, _ | ⟨value, rest⟩⟩⟩
      case cons.cons.cons =>
        exact (blamesOnly_readText _ _).bind fun _ => (blamesOnly_readText _ _).bind fun _ => blamesOnly_ok _
      all_goals exact blamesOnly_error _
  | _ => exact blamesOnly_error _

theorem blamesOnly_readJoin (a : Json) : BlamesOnly .join (readJoin a) := by
  cases a with
  | array items =>
      rcases items with _ | ⟨table, _ | ⟨tableColumn, _ | ⟨operator, _ | ⟨sourceColumn, rest⟩⟩⟩⟩
      case cons.cons.cons.cons =>
        exact (blamesOnly_readText _ _).bind fun _ => (blamesOnly_readText _ _).bind fun _ =>
          (blamesOnly_readText _ _).bind fun _ => (blamesOnly_readText _ _).bind fun _ => blamesOnly_ok _
      all_goals exact blamesOnly_error _
  | _ => exact blamesOnly_error _

theorem blamesOnly_readMembership (a : Json) : BlamesOnly own (readMembership own a) := by
  cases a with
  | array items =>
      simp only [readMembership]
      unfold membershipOf
      split
      case h_2 => exact blamesOnly_error _
      all_goals exact blamesOnly_ok _
  | _ => exact blamesOnly_error _

theorem blamesOnly_readDirection (s : String) : BlamesOnly .order (readDirection s) := by
  unfold readDirection
  simp only
  split
  · exact blamesOnly_ok _
  · split
    · exact blamesOnly_ok _
    · exact blamesOnly_error _

theorem blamesOnly_orderOf (column direction : String) : BlamesOnly .order (orderOf column direction) :=
  (blamesOnly_readDirection direction).bind fun _ => blamesOnly_ok _

theorem blamesOnly_readRange (a : Json) : BlamesOnly .between (readRange a) := by
  cases a with
  | string s =>
      simp only [readRange]
      split
      · exact blamesOnly_ok _
      · exact blamesOnly_error _
  | array items =>
      rcases items with _ | ⟨column, _ | ⟨start, _ | ⟨stop, rest⟩⟩⟩
      case cons.cons.cons => exact (blamesOnly_readText _ _).bind fun _ => blamesOnly_ok _
      all_goals exact blamesOnly_error _
  | _ => exact blamesOnly_error _

theorem blamesOnly_readLimit (a : Json) : BlamesOnly own (readLimit own a) := by
  unfold readLimit
  cases limit? a with
  | some n => exact blamesOnly_ok n
  | none => exact blamesOnly_error _

theorem blamesOnly_readFields (a : Json) : BlamesOnly .relationField (readFields a) := by
  have hlist : BlamesOnly .relationField (readList .relationField (readText .relationField .field) a) :=
    blamesOnly_readList (blamesOnly_readText .field) a
  cases a with
  | string s => exact blamesOnly_ok _
  | _ => exact hlist

theorem length_tokens (s : String) : (tokens s).length = s.toList.count ',' + 1 := by
  rw [tokens_eq, List.length_map, Text.length_splitOn]

/-- The direction of an order belongs to the order of the descriptor, wherever it stands. -/
theorem blamesOnly_readOrder_of_form {a : Json} (h : IsOrderForm a) : BlamesOnly .order (readOrder own a) := by
  cases h with
  | @text s hcommas =>
      have hlength := length_tokens s
      rw [hcommas] at hlength
      obtain ⟨column, direction, hpieces⟩ := List.length_eq_two.mp hlength
      simp only [readOrder, hpieces]
      exact blamesOnly_orderOf column direction
  | list column direction rest =>
      simp only [readOrder, readText]
      exact (blamesOnly_ok column).bind fun _ => (blamesOnly_ok direction).bind fun _ => blamesOnly_orderOf _ _

theorem blamesOnly_readOrder_of_not_form {a : Json} (h : ¬IsOrderForm a) : BlamesOnly own (readOrder own a) := by
  cases a with
  | string s =>
      have hlength := length_tokens s
      simp only [readOrder]
      split
      next hpieces =>
        rw [hpieces] at hlength
        exact absurd (.text (by simpa using hlength.symm)) h
      next => exact blamesOnly_error _
  | array items =>
      rcases items with _ | ⟨column, _ | ⟨direction, rest⟩⟩
      case cons.cons =>
        cases column with
        | string column =>
            cases direction with
            | string direction => exact absurd (.list column direction rest) h
            | _ => exact blamesOnly_error _
        | _ => exact blamesOnly_error _
      all_goals exact blamesOnly_error _
  | _ => exact blamesOnly_error _

theorem blamesOnly_readOrder (a : Json) : BlamesOnly .order (readOrder .order a) := by
  by_cases hform : IsOrderForm a
  · exact blamesOnly_readOrder_of_form hform
  · exact blamesOnly_readOrder_of_not_form hform

/-- A reader accepts what has a shape, and says of anything else which fragment is at fault. -/
structure Reads (read : Json → Except Malformed α) (shape : Json → Prop) (blames : Json → Fragment → Prop) : Prop where
  accepts : ∀ a, (∃ x, read a = .ok x) ↔ shape a
  blames : ∀ a fragment, Blames (read a) fragment ↔ ¬shape a ∧ blames a fragment

theorem not_accepts_of_blames {x : Except Malformed α} (h : Blames x fragment) : ¬∃ a, x = .ok a := by
  rintro ⟨a, rfl⟩
  exact not_blames_ok a h

theorem blames_iff_of_only {x : Except Malformed α} {p : Prop} (haccepts : (∃ a, x = .ok a) ↔ p)
    (honly : BlamesOnly own x) : Blames x fragment ↔ ¬p ∧ fragment = own := by
  rw [← haccepts]
  constructor
  · intro h
    exact ⟨not_accepts_of_blames h, honly fragment h⟩
  · rintro ⟨hfails, rfl⟩
    cases x with
    | ok a => exact absurd ⟨a, rfl⟩ hfails
    | error e =>
        obtain rfl := honly e.fragment ⟨e.fault, rfl⟩
        exact ⟨e.fault, rfl⟩

theorem reads_whole {read : Json → Except Malformed α} (haccepts : ∀ a, (∃ x, read a = .ok x) ↔ shape a)
    (honly : ∀ a, BlamesOnly own (read a)) : Reads read shape fun _ fragment => fragment = own :=
  ⟨haccepts, fun a _ => blames_iff_of_only (haccepts a) (honly a)⟩

theorem reads_list {read : Json → Except Malformed α} {blames : Json → Fragment → Prop}
    (hread : Reads read shape blames) :
    Reads (readList own read) (IsListOf shape) (ListBlames own shape blames) := by
  have haccepts := readList_isOk own hread.accepts
  refine ⟨haccepts, fun a fragment => ⟨fun h => ⟨mt (haccepts a).mpr (not_accepts_of_blames h), ?_⟩, ?_⟩⟩
  · cases a with
    | array items =>
        obtain ⟨fault, hfault⟩ := h
        obtain ⟨before, a, after, rfl, hbefore, ha⟩ := Outcome.mapM_eq_error.mp hfault
        obtain ⟨hshape, hblames⟩ := (hread.blames a fragment).mp ⟨fault, ha⟩
        exact .item (fun b hb => (hread.accepts b).mp (hbefore b hb)) hshape hblames
    | _ =>
        obtain rfl := blames_error.mp h
        exact .list (by simp)
  · rintro ⟨hlist, h⟩
    cases h with
    | list h =>
        cases a with
        | array items => exact absurd rfl (h items)
        | _ => exact ⟨_, rfl⟩
    | item hbefore hshape hblames =>
        obtain ⟨fault, hfault⟩ := (hread.blames _ _).mpr ⟨hshape, hblames⟩
        exact ⟨fault, Outcome.mapM_eq_error.mpr
          ⟨_, _, _, rfl, fun b hb => (hread.accepts b).mpr (hbefore b hb), hfault⟩⟩

theorem reads_order : Reads (readOrder own) IsOrder (OrderBlames own .order) := by
  refine ⟨readOrder_isOk own, fun a fragment => ?_⟩
  by_cases hform : IsOrderForm a
  · rw [orderBlames_of_form hform]
    exact blames_iff_of_only (readOrder_isOk own a) (blamesOnly_readOrder_of_form hform)
  · rw [orderBlames_of_not_form hform]
    exact blames_iff_of_only (readOrder_isOk own a) (blamesOnly_readOrder_of_not_form hform)

theorem blames_given {read : Json → Except Malformed α} {blames : Json → Fragment → Prop}
    (hread : Reads read shape blames) (members : List (String × Json)) (name : String) :
    Blames ((given? members name).mapM read) fragment ↔
      ∃ a, members.lookup name = some a ∧ a.isTruthy = true ∧ ¬shape a ∧ blames a fragment := by
  unfold given?
  cases members.lookup name with
  | none => exact iff_of_false (not_blames_ok none) (by simp)
  | some a =>
      simp only [Option.some.injEq, exists_eq_left', ← hread.blames]
      rw [Option.filter_some]
      cases a.isTruthy with
      | false => exact iff_of_false (not_blames_ok none) (by simp)
      | true =>
          have hmap : Blames ((read a).map some) fragment ↔ Blames (read a) fragment := by
            cases read a <;> simp [Blames, Except.map]
          exact hmap.trans (by simp)

/-- The parts are read one after another. -/
theorem blames_parts {read : Json → Except Malformed α} {blames : Json → Fragment → Prop} {name : String}
    {rest : List Part} {members : List (String × Json)} {f : Option α → Except Malformed β}
    (hread : Reads read shape blames) (hrest : ∀ x, Blames (f x) fragment ↔ FirstFault members rest fragment) :
    Blames ((given? members name).mapM read >>= f) fragment ↔
      FirstFault members (⟨name, shape, blames⟩ :: rest) fragment := by
  rw [blames_bind, firstFault_cons, blames_given hread, ← mapM_given?_isOk hread.accepts members name]
  simp only [hrest, exists_and_right]

theorem reads_predicates (own : Fragment) : Reads (readList own (readPredicate own)) (IsListOf IsPredicate)
    fun _ fragment => fragment = own :=
  reads_whole (readList_isOk own (readPredicate_isOk own)) (blamesOnly_readList blamesOnly_readPredicate)

theorem reads_limit (own : Fragment) : Reads (readLimit own) IsLimit fun _ fragment => fragment = own :=
  reads_whole (readLimit_isOk own) blamesOnly_readLimit

theorem blamesOnly_readRelation_of_unnamed {a : Json}
    (h : ∀ members name, a = .object members → members.lookup "name" ≠ some (.string name)) :
    BlamesOnly .relation (readRelation a) := by
  cases a with
  | object members =>
      intro fragment hblames
      rcases blames_bind.mp hblames with hblames | ⟨name, hname, hblames⟩
      · exact blamesOnly_required _ _ _ fragment hblames
      · rcases blames_bind.mp hblames with hblames | ⟨s, hs, -⟩
        · exact blamesOnly_readText _ _ fragment hblames
        · rw [required_eq_ok, readText_eq_ok.mp hs] at hname
          exact absurd hname (h members s rfl)
  | _ => exact blamesOnly_error _

theorem readRelation_blames_of_name {members : List (String × Json)} {name : String}
    (hname : members.lookup "name" = some (.string name)) :
    Blames (readRelation (.object members)) fragment ↔ FirstFault members (relationParts .order) fragment := by
  have hrequired : required .relation .relationName members "name" = .ok (.string name) := required_eq_ok.mpr hname
  rw [readRelation, hrequired]
  refine blames_parts (reads_whole readFields_isOk blamesOnly_readFields) fun _ => ?_
  refine blames_parts (reads_predicates .relationCondition) fun _ => ?_
  refine blames_parts (reads_limit .relationLimit) fun _ => ?_
  refine blames_parts reads_order fun _ => ?_
  exact iff_of_false (not_blames_ok _) not_firstFault_nil

theorem reads_relation : Reads readRelation (IsRelation IsLimit) (RelationBlames .order) := by
  refine ⟨readRelation_isOk, fun a fragment => ?_⟩
  by_cases hnamed : ∃ members name, a = .object members ∧ members.lookup "name" = some (.string name)
  · obtain ⟨members, name, rfl, hname⟩ := hnamed
    rw [relationBlames_of_name hname, ← readRelation_blames_of_name hname]
    exact (and_iff_right_of_imp fun h => mt (readRelation_isOk _).mpr (not_accepts_of_blames h)).symm
  · have hunnamed : ∀ members name, a = .object members → members.lookup "name" ≠ some (.string name) :=
      fun members name ha hname => hnamed ⟨members, name, ha, hname⟩
    rw [relationBlames_of_unnamed hunnamed]
    exact blames_iff_of_only (readRelation_isOk a) (blamesOnly_readRelation_of_unnamed hunnamed)

theorem ofMembers_blames (members : List (String × Json)) :
    Blames (ofMembers members) fragment ↔ FirstFault members (parts .order) fragment := by
  refine blames_parts (reads_list reads_relation) fun _ => ?_
  refine blames_parts (reads_whole (readList_isOk .join readJoin_isOk) (blamesOnly_readList blamesOnly_readJoin))
    fun _ => ?_
  refine blames_parts (reads_whole (readMembership_isOk .whereIn) blamesOnly_readMembership) fun _ => ?_
  refine blames_parts (reads_whole (readMembership_isOk .whereNotIn) blamesOnly_readMembership) fun _ => ?_
  refine blames_parts (reads_predicates .whereAll) fun _ => ?_
  refine blames_parts (reads_predicates .whereAny) fun _ => ?_
  refine blames_parts (reads_whole (readPredicate_isOk .whereDate) blamesOnly_readPredicate) fun _ => ?_
  refine blames_parts (reads_whole (readPredicate_isOk .whereMonth) blamesOnly_readPredicate) fun _ => ?_
  refine blames_parts (reads_whole readRange_isOk blamesOnly_readRange) fun _ => ?_
  refine blames_parts (reads_whole (readOrder_isOk .order) blamesOnly_readOrder) fun _ => ?_
  refine blames_parts (reads_limit .limit) fun _ => ?_
  exact iff_of_false (not_blames_ok _) not_firstFault_nil

/-- An object that is refused is refused for the first of its parts that is given and does not have its shape, whatever
the order of its members and whatever stands in the later parts. A faulty direction belongs to the order of the
descriptor, also where it stands in the order of related rows. -/
theorem ofJson_blames_first_fault (members : List (String × Json)) :
    (∀ fragment, Blames (ofJson (.object members)) fragment ↔ FirstFault members (parts .order) fragment) ∧
    ∀ before part after, parts .order = before ++ part :: after → ¬MemberIs members part.name part.shape →
      ∀ members', (∀ p ∈ before ++ [part], members'.lookup p.name = members.lookup p.name) →
        ∀ fragment, Blames (ofJson (.object members')) fragment ↔ Blames (ofJson (.object members)) fragment := by
  refine ⟨fun _ => ofMembers_blames members, fun before part after hparts hfault members' hsame fragment => ?_⟩
  show Blames (ofMembers members') fragment ↔ Blames (ofMembers members) fragment
  rw [ofMembers_blames, ofMembers_blames, hparts, firstFault_congr hfault hsame]

theorem ofJson_blames_first_fault_where :
    Blames (ofJson (.object [("limit", .string "many"), ("where", .string "all")])) .whereAll ∧
    Blames (ofJson (.object [("where", .string "all"), ("order", .string "id,up")])) .whereAll := by
  have hlist : ¬IsListOf IsPredicate (.string "all") := by
    rintro ⟨_, ⟨⟩, _⟩
  have hfirst : FirstFault [("limit", .string "many"), ("where", .string "all")] (parts .order) .whereAll :=
    .later (memberIs_of_none rfl _) (.later (memberIs_of_none rfl _) (.later (memberIs_of_none rfl _)
      (.later (memberIs_of_none rfl _) (.here rfl rfl hlist rfl))))
  obtain ⟨hblames, hsame⟩ := ofJson_blames_first_fault [("limit", .string "many"), ("where", .string "all")]
  have hwhere := (hblames .whereAll).mpr hfirst
  refine ⟨hwhere, (hsame ((parts .order).take 4) (.whole "where" .whereAll (IsListOf IsPredicate))
    ((parts .order).drop 5) rfl (fun h => hlist (h _ rfl rfl)) _ ?_ .whereAll).mpr hwhere⟩
  simp [parts, Part.whole, List.lookup_cons]

/-- If directions inside relations belonged to the relation, nothing in it could be a fault of the order. -/
theorem not_relationBlames_order (a : Json) : ¬RelationBlames .relationOrder a .order := by
  intro h
  cases h with
  | part hname h =>
      simp only [relationParts, Part.whole, firstFault_cons, not_firstFault_nil, reduceCtorEq, and_false, exists_false,
        or_false, false_or] at h
      obtain ⟨-, -, -, a, -, -, -, ⟨⟩⟩ := h

/-- A sideways order of related rows is told as a fault of an order that is not there. -/
theorem direction_blamed_on_order : ¬∀ members fragment,
    Blames (ofJson (.object members)) fragment → FirstFault members (parts .relationOrder) fragment := by
  intro hfirst
  let related : List (String × Json) :=
    [("name", .string "orders"), ("order", .array [.string "total", .string "sideways"])]
  -- The reader of directions has a fragment of its own, whatever the order stands in.
  have hread : ofJson (.object [("relation", .array [.object related])]) =
      .error ⟨.order, .unknownDirection "sideways"⟩ := by decide
  have hfault := hfirst [("relation", .array [.object related])] .order ⟨_, hread⟩
  have horder : [("relation", Json.array [.object related])].lookup "order" = none := rfl
  simp only [parts, Part.whole, firstFault_cons, not_firstFault_nil, horder, reduceCtorEq, and_false, false_and,
    exists_false, or_false] at hfault
  obtain ⟨_, -, -, -, h⟩ := hfault
  cases h with
  | item hbefore hshape hblames => exact not_relationBlames_order _ hblames

end Descriptor

end RowQuery
