import RowQuery.Proofs.Outcome
import RowQuery.Repository.Field

namespace RowQuery

theorem Field.set_eq_ok {f : Field} {row row' : Row} {value : Json} :
    f.set row value = .ok row' ↔ f.validate value = .ok () ∧ row' = row.insert f.name value := by
  rw [Field.set, Outcome.bind_eq_ok]
  constructor
  · rintro ⟨_, hvalid, hset⟩
    exact ⟨hvalid, (Except.ok.inj hset).symm⟩
  · rintro ⟨hvalid, rfl⟩
    exact ⟨(), hvalid, rfl⟩

namespace FieldRegistry

variable {r r' : FieldRegistry} {f : Field} {name : String}

theorem field_eq_ok : r.field name = .ok f ↔ r.fields.get? name = some f := by
  unfold field
  cases r.fields.get? name <;> simp

theorem register_eq_ok : r.register f = .ok r' ↔
    isValidName f.name = true ∧ r.contains f.name = false ∧ r' = ⟨r.fields.insert f.name f⟩ := by
  unfold register
  cases isValidName f.name <;> cases r.contains f.name <;> simp [eq_comm]

/-- Every field stands under its own name. -/
def Named (r : FieldRegistry) : Prop := ∀ name f, r.field name = .ok f → f.name = name

theorem named_empty : ({} : FieldRegistry).Named := by
  intro name f hf
  cases field_eq_ok.mp hf

theorem Named.register (h : r.Named) (hregister : r.register f = .ok r') : r'.Named := by
  obtain ⟨-, -, rfl⟩ := register_eq_ok.mp hregister
  intro name g hg
  have hget := field_eq_ok.mp hg
  rw [Dict.get?_insert] at hget
  by_cases hname : name = f.name
  · rw [if_pos hname] at hget
    rw [hname, ← Option.some.inj hget]
  · rw [if_neg hname] at hget
    exact h name g (field_eq_ok.mpr hget)

/-- A registry that fields are registered in holds each of them under its name. -/
theorem named_registerAll {fields : List Field} (h : ({} : FieldRegistry).registerAll fields = .ok r) : r.Named := by
  apply Outcome.foldlM_invariant named_empty _ h
  intro _ _ _ _ hnamed
  exact hnamed.register

end FieldRegistry

end RowQuery
