import RowQuery.Proofs.Columns
import RowQuery.Proofs.Fields
import Mathlib.Data.List.Dedup
import Mathlib.Data.List.Induction

namespace RowQuery

namespace FieldKind

/-- What a kind takes: whole numbers of any sign, the values and numbers that stand for true and false, all numbers,
texts, or anything. -/
inductive Admits : FieldKind → Json → Prop
  | integer (i : Integer) : Admits .integer (.number (.integer i))
  | bool (b : Bool) : Admits .boolean (.bool b)
  | bit (i : Integer) (h : i.val = 0 ∨ i.val = 1) : Admits .boolean (.number (.integer i))
  | number (n : Number) : Admits .number (.number n)
  | text (s : String) : Admits .text (.string s)
  | any (a : Json) : Admits .any a

theorem accepts_iff {kind : FieldKind} {a : Json} : kind.accepts a = true ↔ kind.Admits a := by
  constructor
  · intro h
    unfold accepts at h
    split at h
    · exact .integer _
    · exact .bool _
    · exact .bit _ (by simpa using h)
    · exact .number _
    · exact .text _
    · exact .any _
    · cases h
  · intro h
    cases h with
    | bit i h => simpa [accepts] using h
    | any a => cases a <;> rfl
    | _ => rfl

end FieldKind

namespace Field

variable {f : Field} {row : Row} {value : Json}

def Accepts (f : Field) (value : Json) : Prop :=
  (value = .null ∧ f.nullable = true) ∨ (value ≠ .null ∧ f.kind.Admits value)

theorem validate_eq_ok : f.validate value = .ok () ↔ f.Accepts value := by
  cases value with
  | null => cases h : f.nullable <;> simp [validate, Accepts, Json.isNull, h]
  | _ => simp [validate, Accepts, Json.isNull, ← FieldKind.accepts_iff]

instance (f : Field) (value : Json) : Decidable (f.Accepts value) :=
  decidable_of_iff (f.validate value = .ok ()) validate_eq_ok

theorem set_of_accepts (h : f.Accepts value) (row : Row) : f.set row value = .ok (row.insert f.name value) :=
  set_eq_ok.mpr ⟨validate_eq_ok.mpr h, rfl⟩

theorem exists_set : (∃ row', f.set row value = .ok row') ↔ f.Accepts value :=
  ⟨fun ⟨_, h⟩ => validate_eq_ok.mp (set_eq_ok.mp h).1, fun h => ⟨_, set_of_accepts h row⟩⟩

/-- Sets a field of a row, which stays as it is if the field does not take the value. -/
def write (row : Row) (w : Field × Json) : Row :=
  match w.1.set row w.2 with
  | .ok row' => row'
  | .error _ => row

theorem write_of_accepts {w : Field × Json} (h : w.1.Accepts w.2) (row : Row) :
    write row w = row.insert w.1.name w.2 := by
  rw [write, set_of_accepts h]

theorem write_of_not_accepts {w : Field × Json} (h : ¬w.1.Accepts w.2) (row : Row) : write row w = row := by
  unfold write
  split
  · rename_i row' hset
    exact absurd (exists_set.mp ⟨row', hset⟩) h
  · rfl

/-- The value that was last written to a column, if one was taken at all. -/
def lastWritten? (column : String) (writes : List (Field × Json)) : Option Json :=
  ((writes.filter fun w => w.1.name = column ∧ w.1.Accepts w.2).getLast?).map Prod.snd

theorem lastWritten?_concat (column : String) (writes : List (Field × Json)) (w : Field × Json) :
    lastWritten? column (writes ++ [w]) =
      if w.1.name = column ∧ w.1.Accepts w.2 then some w.2 else lastWritten? column writes := by
  by_cases h : w.1.name = column ∧ w.1.Accepts w.2
  · simp [lastWritten?, List.filter_append, h]
  · simp [lastWritten?, List.filter_append, h]

/-- The induction takes the last write off, since it is the one that counts. -/
theorem get?_writes (row : Row) (writes : List (Field × Json)) (column : String) :
    (writes.foldl write row).get? column = (lastWritten? column writes).or (row.get? column) := by
  induction writes using List.reverseRecOn with
  | nil => rfl
  | append_singleton writes w ih =>
      rw [List.foldl_concat, lastWritten?_concat]
      by_cases haccepts : w.1.Accepts w.2
      · rw [write_of_accepts haccepts, Dict.get?_insert, ih]
        by_cases hname : w.1.name = column
        · rw [if_pos hname.symm, if_pos ⟨hname, haccepts⟩, Option.some_or]
        · rw [if_neg (Ne.symm hname), if_neg fun h => hname h.1]
      · rw [write_of_not_accepts haccepts, ih, if_neg fun h => haccepts h.2]

end Field

namespace FieldRegistry

variable {r : FieldRegistry} {f : Field} {name : String}

/-- A name that a field may have: ASCII letters, digits and underscores, at least one. -/
def IsFieldName (name : String) : Prop :=
  name ≠ "" ∧ ∀ c ∈ name.toList, ('A' ≤ c ∧ c ≤ 'Z') ∨ ('a' ≤ c ∧ c ≤ 'z') ∨ ('0' ≤ c ∧ c ≤ '9') ∨ c = '_'

theorem isValidName_iff : isValidName name = true ↔ IsFieldName name := by
  have hchar : ∀ c : Char, (c.isAlphanum || decide (c = '_')) = true ↔
      ('A' ≤ c ∧ c ≤ 'Z') ∨ ('a' ≤ c ∧ c ≤ 'z') ∨ ('0' ≤ c ∧ c ≤ '9') ∨ c = '_' := by
    intro c
    have hdigit : c.isDigit = true ↔ '0' ≤ c ∧ c ≤ '9' :=
      Bool.and_eq_true_iff.trans (and_congr decide_eq_true_iff decide_eq_true_iff)
    have hupper : c.isUpper = true ↔ 'A' ≤ c ∧ c ≤ 'Z' := decide_eq_true_iff
    have hlower : c.isLower = true ↔ 'a' ≤ c ∧ c ≤ 'z' :=
      Bool.and_eq_true_iff.trans (and_congr decide_eq_true_iff decide_eq_true_iff)
    have halpha : c.isAlpha = true ↔ c.isUpper = true ∨ c.isLower = true := Bool.or_eq_true_iff
    rw [Char.isAlphanum, Bool.or_eq_true, Bool.or_eq_true, decide_eq_true_eq, halpha, hdigit, hupper, hlower,
      or_assoc, or_assoc]
  simp only [isValidName, IsFieldName, Bool.and_eq_true, decide_eq_true_eq, List.all_eq_true, hchar]

instance (name : String) : Decidable (IsFieldName name) := decidable_of_iff _ isValidName_iff

/-- Registers a field; the registry stays as it is if the field is refused. -/
def attempt (r : FieldRegistry) (f : Field) : FieldRegistry :=
  match r.register f with
  | .ok r' => r'
  | .error _ => r

def registered (fields : List Field) : FieldRegistry := fields.foldl attempt {}

theorem get?_attempt (r : FieldRegistry) (f : Field) (name : String) : (r.attempt f).fields.get? name =
    (r.fields.get? name).or (if f.name = name ∧ IsFieldName name then some f else none) := by
  unfold attempt
  split
  · rename_i r' hregister
    obtain ⟨hvalid, hnew, rfl⟩ := register_eq_ok.mp hregister
    have hnone : r.fields.get? f.name = none := by simpa [contains, Dict.contains] using hnew
    rw [Dict.get?_insert]
    by_cases hname : f.name = name
    · subst hname
      rw [if_pos rfl, hnone, if_pos ⟨rfl, isValidName_iff.mp hvalid⟩, Option.none_or]
    · rw [if_neg (Ne.symm hname), if_neg fun h => hname h.1, Option.or_none]
  · rename_i e hregister
    by_cases hname : f.name = name ∧ IsFieldName name
    · obtain ⟨rfl, hvalid⟩ := hname
      have hold : r.contains f.name = true := by
        by_contra hnew
        have hok := register_eq_ok.mpr ⟨isValidName_iff.mpr hvalid, Bool.eq_false_iff.mpr hnew, rfl⟩
        cases hregister.symm.trans hok
      obtain ⟨g, hg⟩ := Option.isSome_iff_exists.mp hold
      rw [hg, Option.some_or]
    · rw [if_neg hname, Option.or_none]

/-- The first field of a name is the one that is kept, so the induction is from the front. -/
theorem get?_attempts (r : FieldRegistry) (fields : List Field) (name : String) :
    (fields.foldl attempt r).fields.get? name =
      (r.fields.get? name).or (if IsFieldName name then fields.find? (·.name = name) else none) := by
  induction fields generalizing r with
  | nil => simp
  | cons f rest ih =>
      rw [List.foldl_cons, ih, get?_attempt, Option.or_assoc]
      congr 1
      by_cases hvalid : IsFieldName name
      · by_cases hname : f.name = name <;> simp [hvalid, hname]
      · simp [hvalid]

theorem get?_registered (fields : List Field) (name : String) : (registered fields).fields.get? name =
    if IsFieldName name then fields.find? (·.name = name) else none := by
  rw [registered, get?_attempts]
  exact Option.none_or

theorem field_registered {fields : List Field} :
    (registered fields).field name = .ok f ↔ IsFieldName name ∧ fields.find? (·.name = name) = some f := by
  rw [field_eq_ok, get?_registered]
  split <;> simp [*]

theorem contains_registered {fields : List Field} :
    (registered fields).contains name = true ↔ IsFieldName name ∧ name ∈ fields.map Field.name := by
  rw [contains, Dict.contains, get?_registered]
  split <;> simp [*]

theorem size_registered (fields : List Field) :
    (registered fields).size = ((fields.map Field.name).filter IsFieldName).dedup.length := by
  have hnodup : (registered fields).fields.names.Nodup :=
    List.pairwise_map.mpr ((registered fields).fields.sorted.imp fun h => String.ne_of_lt h)
  have hmem : ∀ name, name ∈ (registered fields).fields.names ↔
      name ∈ ((fields.map Field.name).filter IsFieldName).dedup := by
    intro name
    rw [Dict.mem_names, List.mem_dedup, List.mem_filter, decide_eq_true_eq, and_comm]
    exact contains_registered
  have hperm := (List.perm_ext_iff_of_nodup hnodup (List.nodup_dedup _)).mpr hmem
  rw [← hperm.length_eq, Dict.names, List.length_map]
  rfl

theorem register_registered {fields : List Field} :
    (∃ r, (registered fields).register f = .ok r) ↔ IsFieldName f.name ∧ f.name ∉ fields.map Field.name := by
  simp only [register_eq_ok, isValidName_iff, Bool.eq_false_iff, ne_eq, contains_registered]
  constructor
  · rintro ⟨_, hvalid, hnew, -⟩
    exact ⟨hvalid, fun hmem => hnew ⟨hvalid, hmem⟩⟩
  · rintro ⟨hvalid, hnew⟩
    exact ⟨_, hvalid, fun h => hnew h.2, rfl⟩

/-- A registry keeps the first field of every name that a field may have, and no other. Its fields write to a row what
they take and nothing else, so a column holds what was last taken for it. -/
theorem fields_registered_once_and_set :
    (∀ fields : List Field,
      (∀ name, (registered fields).contains name = true ↔ IsFieldName name ∧ name ∈ fields.map Field.name) ∧
      (∀ name f, (registered fields).field name = .ok f ↔
        IsFieldName name ∧ fields.find? (·.name = name) = some f ∧ f.name = name) ∧
      (registered fields).size = ((fields.map Field.name).filter IsFieldName).dedup.length ∧
      ∀ f, (∃ r, (registered fields).register f = .ok r) ↔ IsFieldName f.name ∧ f.name ∉ fields.map Field.name) ∧
    (∀ (f : Field) (row : Row) (value : Json),
      ((∃ row', f.set row value = .ok row') ↔
        (value = .null ∧ f.nullable = true) ∨ (value ≠ .null ∧ f.kind.Admits value)) ∧
      (∀ row', f.set row value = .ok row' → Field.write row (f, value) = row' ∧ f.get row' = value ∧
        ∀ column, column ≠ f.name → row'.get? column = row.get? column) ∧
      ((∀ row', f.set row value ≠ .ok row') → Field.write row (f, value) = row)) ∧
    ∀ (row : Row) (writes : List (Field × Json)) (column : String),
      (writes.foldl Field.write row).get? column = (Field.lastWritten? column writes).or (row.get? column) := by
  refine ⟨fun fields => ⟨fun name => contains_registered, fun name f => ?_, size_registered fields,
    fun f => register_registered⟩, fun f row value => ⟨Field.exists_set, fun row' hset => ?_, fun hnone => ?_⟩,
    Field.get?_writes⟩
  · have hname : fields.find? (·.name = name) = some f → f.name = name :=
      fun h => by simpa using List.find?_some h
    rw [field_registered]
    tauto
  · obtain ⟨-, rfl⟩ := Field.set_eq_ok.mp hset
    refine ⟨by rw [Field.write, hset], ?_, fun column hcolumn => Dict.get?_insert_of_ne row value hcolumn⟩
    rw [Field.get, Dict.get?_insert_self, Option.getD_some]
  · exact Field.write_of_not_accepts (fun h => hnone _ (Field.set_of_accepts h row)) row

/-- Fields of a post, of which one has no name for a field and one comes second under its name. -/
def postFields : List Field :=
  [⟨"active", .boolean, false⟩, ⟨"title; drop", .text, false⟩, ⟨"active", .any, true⟩, ⟨"score", .number, true⟩]

theorem fields_registered_once_and_set_posts :
    let active : Field := ⟨"active", .boolean, false⟩
    let score : Field := ⟨"score", .number, true⟩
    let post : Row := .ofList [("title", .string "one")]
    let writes : List (Field × Json) :=
      [(active, .ofInt64 1), (active, .ofInt64 2), (score, .string "x"), (active, .null), (score, .null)]
    (registered postFields).field "active" = .ok active ∧ (registered postFields).size = 2 ∧
    (∃ after, active.set post (.ofInt64 1) = .ok after ∧ active.get after = .ofInt64 1 ∧
      after.get? "title" = some (.string "one")) ∧
    Field.write post (active, .ofInt64 2) = post ∧
    (writes.foldl Field.write post).get? "active" = some (.ofInt64 1) ∧
    (writes.foldl Field.write post).get? "score" = some .null := by
  intro active score post writes
  obtain ⟨hregistry, haccess, hwrites⟩ := fields_registered_once_and_set
  obtain ⟨-, hfield, hsize, -⟩ := hregistry postFields
  obtain ⟨hset, hafter, -⟩ := haccess active post (.ofInt64 1)
  obtain ⟨after, hok⟩ := hset.mpr (.inr ⟨by decide, .bit _ (.inr (by decide))⟩)
  obtain ⟨-, hget, hother⟩ := hafter after hok
  have hrefused : ∀ row', active.set post (.ofInt64 2) ≠ .ok row' := by
    intro row' hrow'
    have herror : (active.set post (.ofInt64 2)).toOption.isSome = false := by decide
    rw [hrow'] at herror
    cases herror
  refine ⟨(hfield "active" active).mpr ⟨by decide, by decide, rfl⟩,
    hsize.trans (by decide), ⟨after, hok, hget, (hother "title" (by decide)).trans (by decide)⟩,
    (haccess active post (.ofInt64 2)).2.2 hrefused, (hwrites post writes "active").trans (by decide),
    (hwrites post writes "score").trans (by decide)⟩

end FieldRegistry

end RowQuery
