namespace RowQuery

/-- A finite map from names to values, listed by increasing name. -/
structure Dict (α : Type) where
  entries : List (String × α)
  sorted : entries.Pairwise fun a b => a.1 < b.1
deriving DecidableEq

namespace Dict

variable {α : Type}

def empty : Dict α := ⟨[], .nil⟩

instance : Inhabited (Dict α) := ⟨empty⟩

def get? (d : Dict α) (name : String) : Option α := d.entries.lookup name

def contains (d : Dict α) (name : String) : Bool := (d.get? name).isSome

def size (d : Dict α) : Nat := d.entries.length

def names (d : Dict α) : List String := d.entries.map Prod.fst

def place (name : String) (value : α) : List (String × α) → List (String × α)
  | [] => [(name, value)]
  | e :: rest =>
    if name < e.1 then (name, value) :: e :: rest
    else if e.1 < name then e :: place name value rest
    else (name, value) :: rest

theorem mem_place {name : String} {value : α} {e : String × α} {l : List (String × α)}
    (h : e ∈ place name value l) : e = (name, value) ∨ e ∈ l := by
  induction l with
  | nil => simpa [place] using h
  | cons f rest ih =>
      unfold place at h
      split at h
      · simpa using h
      · split at h
        · rcases List.mem_cons.mp h with rfl | h
          · simp
          · rcases ih h with rfl | h <;> simp [*]
        · rcases List.mem_cons.mp h with rfl | h <;> simp [*]

theorem eq_of_not_lt {a b : String} (hab : ¬ a < b) (hba : ¬ b < a) : a = b :=
  String.le_antisymm (String.not_lt.mp hba) (String.not_lt.mp hab)

theorem place_sorted (name : String) (value : α) {l : List (String × α)}
    (h : l.Pairwise fun a b => a.1 < b.1) : (place name value l).Pairwise fun a b => a.1 < b.1 := by
  induction l with
  | nil => simp [place]
  | cons e rest ih =>
      obtain ⟨he, hr⟩ := List.pairwise_cons.mp h
      unfold place
      split
      · rename_i hlt
        refine List.pairwise_cons.mpr ⟨fun f hf => ?_, h⟩
        rcases List.mem_cons.mp hf with rfl | hf
        · exact hlt
        · exact String.lt_trans hlt (he f hf)
      · split
        · rename_i hlt
          refine List.pairwise_cons.mpr ⟨fun f hf => ?_, ih hr⟩
          rcases mem_place hf with rfl | hf
          · exact hlt
          · exact he f hf
        · rename_i hne hne'
          refine List.pairwise_cons.mpr ⟨fun f hf => ?_, hr⟩
          have hname : name = e.1 := eq_of_not_lt hne hne'
          exact hname ▸ he f hf

def insert (d : Dict α) (name : String) (value : α) : Dict α :=
  ⟨place name value d.entries, place_sorted name value d.sorted⟩

/-- Adds the entries in turn; a later entry replaces an earlier one of the same name. -/
def addAll (d : Dict α) (l : List (String × α)) : Dict α := l.foldl (fun d e => d.insert e.1 e.2) d

def ofList (l : List (String × α)) : Dict α := empty.addAll l

def merge (d e : Dict α) : Dict α := d.addAll e.entries

@[simp]
theorem get?_empty (name : String) : (empty : Dict α).get? name = none := rfl

theorem lookup_eq_none {name : String} {l : List (String × α)} (h : ∀ e ∈ l, e.1 ≠ name) :
    l.lookup name = none := by
  induction l with
  | nil => rfl
  | cons e rest ih =>
      have he : (name == e.1) = false := by simpa using fun heq => h e List.mem_cons_self heq.symm
      rw [List.lookup_cons, he]
      exact ih fun f hf => h f (List.mem_cons_of_mem e hf)

theorem lookup_place (name : String) (value : α) (other : String) (l : List (String × α)) :
    (place name value l).lookup other = if other = name then some value else l.lookup other := by
  induction l with
  | nil =>
      by_cases h : other = name
      · simp [place, h]
      · simp [place, List.lookup_cons, h, beq_false_of_ne h]
  | cons e rest ih =>
      unfold place
      split
      · by_cases h : other = name
        · simp [h]
        · simp [List.lookup_cons, h, beq_false_of_ne h]
      · split
        · rename_i hlt
          rw [List.lookup_cons, List.lookup_cons, ih]
          by_cases h : other = e.1
          · have hne : other ≠ name := fun heq => String.lt_irrefl _ (heq ▸ h ▸ hlt)
            simp [h, h ▸ hne]
          · simp [beq_false_of_ne h]
        · rename_i hne hne'
          have hname : name = e.1 := eq_of_not_lt hne hne'
          rw [List.lookup_cons, List.lookup_cons, ← hname]
          by_cases h : other = name
          · simp [h]
          · simp [beq_false_of_ne h, h]

theorem get?_insert (d : Dict α) (name : String) (value : α) (other : String) :
    (d.insert name value).get? other = if other = name then some value else d.get? other :=
  lookup_place name value other d.entries

@[simp]
theorem get?_insert_self (d : Dict α) (name : String) (value : α) :
    (d.insert name value).get? name = some value := by simp [get?_insert]

theorem get?_insert_of_ne (d : Dict α) {name other : String} (value : α) (h : other ≠ name) :
    (d.insert name value).get? other = d.get? other := by simp [get?_insert, h]

theorem entries_ext {l m : List (String × α)} (hl : l.Pairwise fun a b => a.1 < b.1)
    (hm : m.Pairwise fun a b => a.1 < b.1) (h : ∀ name, l.lookup name = m.lookup name) : l = m := by
  induction l generalizing m with
  | nil =>
      cases m with
      | nil => rfl
      | cons f rest =>
          have hf := h f.1
          rw [List.lookup_cons_self] at hf
          simp at hf
  | cons e tail ih =>
      cases m with
      | nil =>
          have he := h e.1
          rw [List.lookup_cons_self] at he
          simp at he
      | cons f rest =>
          obtain ⟨he, ht⟩ := List.pairwise_cons.mp hl
          obtain ⟨hf, hr⟩ := List.pairwise_cons.mp hm
          have hnames : e.1 = f.1 := by
            refine eq_of_not_lt (fun hlt => ?_) (fun hlt => ?_)
            · have hn := h e.1
              rw [List.lookup_cons_self, lookup_eq_none] at hn
              · simp at hn
              · intro g hg heq
                rcases List.mem_cons.mp hg with rfl | hg
                · exact String.lt_irrefl _ (heq ▸ hlt)
                · exact String.lt_irrefl _ (String.lt_trans hlt (heq ▸ hf g hg))
            · have hn := h f.1
              rw [List.lookup_cons_self, lookup_eq_none] at hn
              · simp at hn
              · intro g hg heq
                rcases List.mem_cons.mp hg with rfl | hg
                · exact String.lt_irrefl _ (heq ▸ hlt)
                · exact String.lt_irrefl _ (String.lt_trans hlt (heq ▸ he g hg))
          have hvalues : e.2 = f.2 := by
            have hn := h e.1
            rw [List.lookup_cons_self, hnames, List.lookup_cons_self] at hn
            exact Option.some.inj hn
          have htails : tail = rest := by
            refine ih ht hr fun name => ?_
            by_cases hname : name = e.1
            · rw [lookup_eq_none, lookup_eq_none]
              · intro g hg heq
                exact String.lt_irrefl _ ((heq.trans hname).trans hnames ▸ hf g hg)
              · intro g hg heq
                exact String.lt_irrefl _ (heq.trans hname ▸ he g hg)
            · have hn := h name
              rwa [List.lookup_cons, List.lookup_cons, beq_false_of_ne hname,
                beq_false_of_ne (hnames ▸ hname)] at hn
          rw [htails, Prod.ext hnames hvalues]

@[ext]
theorem ext {d e : Dict α} (h : ∀ name, d.get? name = e.get? name) : d = e := by
  cases d with
  | mk l hl =>
      cases e with
      | mk m hm =>
          have hlm : l = m := entries_ext hl hm h
          subst hlm
          rfl

end Dict

end RowQuery
