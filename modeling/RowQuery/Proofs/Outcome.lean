import Mathlib.Data.List.Forall2

namespace RowQuery.Outcome

variable {ε α β γ δ : Type}

theorem bind_eq_ok {x : Except ε α} {f : α → Except ε β} {b : β} :
    (x >>= f) = .ok b ↔ ∃ a, x = .ok a ∧ f a = .ok b := by
  cases x <;> simp [bind, Except.bind]

theorem bind_eq_error {x : Except ε α} {f : α → Except ε β} {e : ε} :
    (x >>= f) = .error e ↔ x = .error e ∨ ∃ a, x = .ok a ∧ f a = .error e := by
  cases x <;> simp [bind, Except.bind]

theorem map_eq_ok {x : Except ε α} {f : α → β} {b : β} : x.map f = .ok b ↔ ∃ a, x = .ok a ∧ f a = b := by
  cases x <;> simp [Except.map]

theorem mapError_eq_ok {x : Except ε α} {f : ε → δ} {a : α} : x.mapError f = .ok a ↔ x = .ok a := by
  cases x <;> simp [Except.mapError]

theorem exists_bind {x : Except ε α} {f : α → Except ε β} :
    (∃ b, (x >>= f) = .ok b) ↔ ∃ a, x = .ok a ∧ ∃ b, f a = .ok b := by
  simp only [bind_eq_ok]
  exact ⟨fun ⟨b, a, ha, hb⟩ => ⟨a, ha, b, hb⟩, fun ⟨a, ha, b, hb⟩ => ⟨b, a, ha, hb⟩⟩

theorem toOption_isSome {x : Except ε α} : x.toOption.isSome = true ↔ ∃ a, x = .ok a := by
  cases x <;> simp [Except.toOption]

theorem toOption_eq_some {x : Except ε α} {a : α} : x.toOption = some a ↔ x = .ok a := by
  cases x <;> simp [Except.toOption]

theorem toOption_any {x : Except ε α} {p : α → Bool} : x.toOption.any p = true ↔ ∃ a, x = .ok a ∧ p a = true := by
  cases x <;> simp [Except.toOption]

/-- Two computations agree, up to what they fail with, if they answer the same. -/
theorem toOption_eq_iff {x y : Except ε α} : x.toOption = y.toOption ↔ ∀ a, x = .ok a ↔ y = .ok a := by
  cases x <;> cases y <;> simp [Except.toOption, eq_comm]

theorem toOption_bind (x : Except ε α) (f : α → Except ε β) :
    (x >>= f).toOption = x.toOption.bind fun a => (f a).toOption := by
  cases x <;> rfl

theorem mapM_eq_ok {f : α → Except ε β} {l : List α} {r : List β} :
    l.mapM f = .ok r ↔ List.Forall₂ (fun a b => f a = .ok b) l r := by
  induction l generalizing r with
  | nil => cases r <;> simp [pure, Except.pure]
  | cons a rest ih =>
      simp only [List.mapM_cons, bind_eq_ok]
      cases r with
      | nil => simp [pure, Except.pure]
      | cons b r =>
          rw [List.forall₂_cons, ← ih]
          simp [pure, Except.pure]

theorem exists_mapM {f : α → Except ε β} {l : List α} : (∃ r, l.mapM f = .ok r) ↔ ∀ a ∈ l, ∃ b, f a = .ok b := by
  induction l with
  | nil => simp [pure, Except.pure]
  | cons a rest ih =>
      rw [List.mapM_cons, exists_bind, List.forall_mem_cons, ← ih]
      constructor
      · rintro ⟨b, hb, hrest⟩
        obtain ⟨r, hr, -⟩ := exists_bind.mp hrest
        exact ⟨⟨b, hb⟩, r, hr⟩
      · rintro ⟨⟨b, hb⟩, r, hr⟩
        exact ⟨b, hb, exists_bind.mpr ⟨r, hr, b :: r, rfl⟩⟩

/-- The first item that fails is the one whose error is seen. -/
theorem mapM_eq_error {f : α → Except ε β} {l : List α} {e : ε} : l.mapM f = .error e ↔
    ∃ before a after, l = before ++ a :: after ∧ (∀ b ∈ before, ∃ r, f b = .ok r) ∧ f a = .error e := by
  induction l with
  | nil => simp [pure, Except.pure]
  | cons a rest ih =>
      simp only [List.mapM_cons, bind_eq_error, ih]
      constructor
      · rintro (ha | ⟨r, hr, ⟨before, b, after, rfl, hbefore, hb⟩ | ⟨_, _, ⟨⟩⟩⟩)
        · exact ⟨[], a, rest, rfl, by simp, ha⟩
        · exact ⟨a :: before, b, after, rfl, List.forall_mem_cons.mpr ⟨⟨r, hr⟩, hbefore⟩, hb⟩
      · rintro ⟨_ | ⟨c, before⟩, b, after, hsplit, hbefore, hb⟩
        · obtain ⟨rfl, rfl⟩ := List.cons.inj hsplit
          exact .inl hb
        · obtain ⟨rfl, rfl⟩ := List.cons.inj hsplit
          obtain ⟨⟨r, hr⟩, hbefore⟩ := List.forall_mem_cons.mp hbefore
          exact .inr ⟨r, hr, .inl ⟨before, b, after, rfl, hbefore, hb⟩⟩

theorem mem_of_mapM_eq_ok {f : α → Except ε β} {l : List α} {r : List β} (h : l.mapM f = .ok r) {b : β}
    (hb : b ∈ r) : ∃ a ∈ l, f a = .ok b := by
  induction l generalizing r with
  | nil =>
      have hr : [] = r := Except.ok.inj h
      simp [← hr] at hb
  | cons a rest ih =>
      rw [List.mapM_cons] at h
      obtain ⟨c, ha, h⟩ := bind_eq_ok.mp h
      obtain ⟨cs, hrest, h⟩ := bind_eq_ok.mp h
      have hr : c :: cs = r := Except.ok.inj h
      rcases List.mem_cons.mp (hr ▸ hb) with rfl | hb
      · exact ⟨a, List.mem_cons_self, ha⟩
      · obtain ⟨a', ha', hf⟩ := ih hrest hb
        exact ⟨a', List.mem_cons_of_mem a ha', hf⟩

theorem mapM_map_eq_ok {f : α → Except ε β} {g : α → β → γ} {l : List α} {r : List γ} :
    l.mapM (fun a => (f a).map (g a)) = .ok r ↔ ∃ m, l.mapM f = .ok m ∧ r = List.zipWith g l m := by
  simp only [mapM_eq_ok, map_eq_ok]
  induction l generalizing r with
  | nil => cases r <;> simp
  | cons a rest ih =>
      constructor
      · intro h
        cases h with
        | cons ha hrest =>
            obtain ⟨b, ha, rfl⟩ := ha
            obtain ⟨m, hm, rfl⟩ := ih.mp hrest
            exact ⟨b :: m, .cons ha hm, rfl⟩
      · rintro ⟨m, hm, rfl⟩
        cases hm with
        | cons ha hrest => exact .cons ⟨_, ha, rfl⟩ (ih.mpr ⟨_, hrest, rfl⟩)

theorem exists_mapM_of_subset {f : α → Except ε β} {l m : List α} {r : List β} (h : l.mapM f = .ok r)
    (hsubset : m ⊆ l) : ∃ r', m.mapM f = .ok r' :=
  exists_mapM.mpr fun a ha => exists_mapM.mp ⟨r, h⟩ a (hsubset ha)

theorem map_mapM {f : α → Except ε β} {g : β → δ} {k : α → γ} {f' : γ → Except ε δ}
    (h : ∀ a, (f a).map g = f' (k a)) (l : List α) : (l.mapM f).map (List.map g) = (l.map k).mapM f' := by
  induction l with
  | nil => rfl
  | cons a rest ih =>
      simp only [List.map_cons, List.mapM_cons, ← h, ← ih]
      cases f a with
      | error e => rfl
      | ok b => cases rest.mapM f <;> rfl

theorem map_foldlM {f : α → γ → Except ε α} {f' : β → γ → Except ε β} {g : α → β}
    (h : ∀ a c, (f a c).map g = f' (g a) c) (l : List γ) (a : α) :
    (l.foldlM f a).map g = l.foldlM f' (g a) := by
  induction l generalizing a with
  | nil => rfl
  | cons c rest ih =>
      simp only [List.foldlM_cons, ← h]
      cases hc : f a c with
      | error e => rfl
      | ok a' => exact ih a'

/-- What each step of a fold keeps holds at its end. -/
theorem foldlM_invariant {f : α → γ → Except ε α} {P : α → Prop} {l : List γ} {a r : α} (ha : P a)
    (hstep : ∀ a a', ∀ c ∈ l, P a → f a c = .ok a' → P a') (h : l.foldlM f a = .ok r) : P r := by
  induction l generalizing a with
  | nil =>
      have hr : a = r := Except.ok.inj h
      exact hr ▸ ha
  | cons c rest ih =>
      rw [List.foldlM_cons] at h
      obtain ⟨a', hc, hrest⟩ := bind_eq_ok.mp h
      have ha' : P a' := hstep a a' c List.mem_cons_self ha hc
      exact ih ha' (fun b b' d hd => hstep b b' d (List.mem_cons_of_mem c hd)) hrest

theorem allM_eq_ok_true {f : α → Except ε Bool} {l : List α} :
    l.allM f = .ok true ↔ ∀ a ∈ l, f a = .ok true := by
  induction l with
  | nil => simp [pure, Except.pure]
  | cons a rest ih =>
      rw [List.allM_cons, bind_eq_ok, List.forall_mem_cons, ← ih]
      constructor
      · rintro ⟨b, hb, hrest⟩
        cases b with
        | false => simp [pure, Except.pure] at hrest
        | true => exact ⟨hb, hrest⟩
      · exact fun ⟨ha, hrest⟩ => ⟨true, ha, hrest⟩

theorem allM_of_append {f : α → Except ε Bool} {l m : List α} {b : Bool} (h : (l ++ m).allM f = .ok b) :
    ∃ c, l.allM f = .ok c := by
  induction l with
  | nil => exact ⟨true, rfl⟩
  | cons a rest ih =>
      rw [List.cons_append, List.allM_cons] at h
      obtain ⟨x, hx, hrest⟩ := bind_eq_ok.mp h
      rw [List.allM_cons, hx]
      cases x with
      | false => exact ⟨false, rfl⟩
      | true => exact ih hrest

theorem allM_append_of_ok {f : α → Except ε Bool} {m : List α} {b : Bool} (h : m.allM f = .ok b) (l : List α) :
    (l ++ m).allM f = (l.allM f).map (· && b) := by
  induction l with
  | nil => rw [List.nil_append, h]; rfl
  | cons a rest ih =>
      rw [List.cons_append, List.allM_cons, List.allM_cons, ih]
      rcases f a with e | ⟨_ | _⟩ <;> rfl

theorem allM_of_ok {f : α → Except ε Bool} {g : α → Bool} {l : List α} (h : ∀ a ∈ l, f a = .ok (g a)) :
    l.allM f = .ok (l.all g) := by
  induction l with
  | nil => rfl
  | cons a rest ih =>
      obtain ⟨ha, hrest⟩ := List.forall_mem_cons.mp h
      rw [List.allM_cons, ha, ih hrest, List.all_cons]
      cases g a <;> rfl

/-- Items that pass without being looked at further need not be tested. -/
theorem allM_filter {f : α → Except ε Bool} {skip : α → Bool} (h : ∀ a, skip a = true → f a = .ok true)
    (l : List α) : (l.filter fun a => !skip a).allM f = l.allM f := by
  induction l with
  | nil => rfl
  | cons a rest ih =>
      cases ha : skip a with
      | false => rw [List.filter_cons_of_pos (by simp [ha]), List.allM_cons, List.allM_cons, ih]
      | true =>
          rw [List.filter_cons_of_neg (by simp [ha]), List.allM_cons, h a ha, ih]
          rfl

/-- An item that is not met is what ends the test early. -/
theorem exists_of_allM {f : α → Except ε Bool} {l : List α} (h : l.allM f = .ok false) : ∃ a ∈ l, f a = .ok false := by
  induction l with
  | nil => simp [pure, Except.pure] at h
  | cons a rest ih =>
      rw [List.allM_cons] at h
      obtain ⟨b, hb, hrest⟩ := bind_eq_ok.mp h
      cases b with
      | false => exact ⟨a, List.mem_cons_self, hb⟩
      | true =>
          obtain ⟨c, hc, hfalse⟩ := ih hrest
          exact ⟨c, List.mem_cons_of_mem a hc, hfalse⟩

theorem exists_of_anyM {f : α → Except ε Bool} {l : List α} (h : l.anyM f = .ok true) : ∃ a ∈ l, f a = .ok true := by
  induction l with
  | nil => simp [pure, Except.pure] at h
  | cons a rest ih =>
      rw [List.anyM_cons] at h
      obtain ⟨b, hb, hrest⟩ := bind_eq_ok.mp h
      cases b with
      | true => exact ⟨a, List.mem_cons_self, hb⟩
      | false =>
          obtain ⟨c, hc, htrue⟩ := ih hrest
          exact ⟨c, List.mem_cons_of_mem a hc, htrue⟩

theorem forall_of_anyM {f : α → Except ε Bool} {l : List α} (h : l.anyM f = .ok false) :
    ∀ a ∈ l, f a = .ok false := by
  induction l with
  | nil => simp
  | cons a rest ih =>
      rw [List.anyM_cons] at h
      obtain ⟨b, hb, hrest⟩ := bind_eq_ok.mp h
      cases b with
      | true => simp [pure, Except.pure] at hrest
      | false => exact List.forall_mem_cons.mpr ⟨hb, ih hrest⟩

theorem exists_allM {f : α → Except ε Bool} {l : List α} (h : ∀ a ∈ l, ∃ b, f a = .ok b) :
    ∃ b, l.allM f = .ok b := by
  induction l with
  | nil => exact ⟨true, rfl⟩
  | cons a rest ih =>
      obtain ⟨⟨b, hb⟩, hrest⟩ := List.forall_mem_cons.mp h
      rw [List.allM_cons, hb]
      cases b with
      | false => exact ⟨false, rfl⟩
      | true => exact ih hrest

theorem exists_anyM {f : α → Except ε Bool} {l : List α} (h : ∀ a ∈ l, ∃ b, f a = .ok b) :
    ∃ b, l.anyM f = .ok b := by
  induction l with
  | nil => exact ⟨false, rfl⟩
  | cons a rest ih =>
      obtain ⟨⟨b, hb⟩, hrest⟩ := List.forall_mem_cons.mp h
      rw [List.anyM_cons, hb]
      cases b with
      | true => exact ⟨true, rfl⟩
      | false => exact ih hrest

end RowQuery.Outcome
