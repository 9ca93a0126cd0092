import RowQuery.Store.Selection
import Mathlib.Data.List.Basic

namespace RowQuery

variable {α : Type} {order : α → α → Ordering} {l : List α} {a p : α}

/-- On the items of a list an order is transitive, and turns around with its arguments. -/
structure PreorderOn (order : α → α → Ordering) (l : List α) : Prop where
  swap : ∀ a ∈ l, ∀ b ∈ l, order b a = (order a b).swap
  trans : ∀ a ∈ l, ∀ b ∈ l, ∀ c ∈ l, order a b ≠ .gt → order b c ≠ .gt → order a c ≠ .gt

instance : Decidable (PreorderOn order l) :=
  decidable_of_iff ((∀ a ∈ l, ∀ b ∈ l, order b a = (order a b).swap) ∧
    ∀ a ∈ l, ∀ b ∈ l, ∀ c ∈ l, order a b ≠ .gt → order b c ≠ .gt → order a c ≠ .gt)
    ⟨fun h => ⟨h.1, h.2⟩, fun h => ⟨h.swap, h.trans⟩⟩

/-- The items of a list in order, those of equal order as they stand in the list. -/
structure StablySorted (order : α → α → Ordering) (l sorted : List α) : Prop where
  perm : sorted.Perm l
  increasing : sorted.Pairwise fun a b => order a b ≠ .gt
  stable : ∀ p ∈ l, (sorted.filter fun a => order p a = .eq) = l.filter fun a => order p a = .eq

namespace PreorderOn

theorem mono (h : PreorderOn order l) {m : List α} (hm : m ⊆ l) : PreorderOn order m where
  swap := fun a ha b hb => h.swap a (hm ha) b (hm hb)
  trans := fun a ha b hb c hc => h.trans a (hm ha) b (hm hb) c (hm hc)

theorem comap {β : Type} {f : β → α} {m : List β} (h : PreorderOn order (m.map f)) :
    PreorderOn (fun a b => order (f a) (f b)) m where
  swap := fun _ ha _ hb => h.swap _ (List.mem_map_of_mem ha) _ (List.mem_map_of_mem hb)
  trans := fun _ ha _ hb _ hc =>
    h.trans _ (List.mem_map_of_mem ha) _ (List.mem_map_of_mem hb) _ (List.mem_map_of_mem hc)

theorem reverse (h : PreorderOn order l) : PreorderOn (fun a b => (order a b).swap) l where
  swap := fun a ha b hb => congrArg Ordering.swap (h.swap a ha b hb)
  trans := by
    intro a ha b hb c hc hab hbc
    rw [← h.swap a ha b hb] at hab
    rw [← h.swap b hb c hc] at hbc
    rw [← h.swap a ha c hc]
    exact h.trans c hc b hb a ha hbc hab

theorem eq_of_swap_not_gt (h : PreorderOn order l) {b : α} (ha : a ∈ l) (hb : b ∈ l) (hab : order a b ≠ .gt)
    (hba : order b a ≠ .gt) : order a b = .eq := by
  rw [h.swap a ha b hb] at hba
  cases horder : order a b <;> simp [horder] at hab hba ⊢

/-- Between two items that are equal there are only items equal to both. -/
theorem eq_of_between (h : PreorderOn order l) {b c : α} (ha : a ∈ l) (hb : b ∈ l) (hc : c ∈ l)
    (hab : order a b ≠ .gt) (hbc : order b c ≠ .gt) (hac : order a c = .eq) : order a b = .eq ∧ order b c = .eq := by
  have hca : order c a ≠ .gt := by
    rw [h.swap a ha c hc, hac]
    decide
  constructor
  · exact h.eq_of_swap_not_gt ha hb hab (h.trans b hb c hc a ha hbc hca)
  · exact h.eq_of_swap_not_gt hb hc hbc (h.trans c hc a ha b hb hca hab)

/-- A second order decides between the items that are equal in the first. -/
theorem thenBy {next : α → α → Ordering} (h : PreorderOn order l) (hnext : PreorderOn next l) :
    PreorderOn (fun a b => (order a b).then (next a b)) l where
  swap := by
    intro a ha b hb
    rw [Ordering.swap_then, h.swap a ha b hb, hnext.swap a ha b hb]
  trans := by
    intro a ha b hb c hc hab hbc
    simp only [ne_eq, Ordering.then_eq_gt, not_or, not_and] at hab hbc ⊢
    refine ⟨h.trans a ha b hb c hc hab.1 hbc.1, fun hac => ?_⟩
    obtain ⟨heq, heq'⟩ := h.eq_of_between ha hb hc hab.1 hbc.1 hac
    exact hnext.trans a ha b hb c hc (hab.2 heq) (hbc.2 heq')

theorem not_gt_of_gt (h : PreorderOn order l) {b : α} (ha : a ∈ l) (hb : b ∈ l) (hab : order a b = .gt) :
    order b a ≠ .gt := by
  rw [h.swap a ha b hb, hab]
  decide

/-- Items that are equal to a third one are equal to each other. -/
theorem not_gt_of_eq (h : PreorderOn order l) {b : α} (hp : p ∈ l) (ha : a ∈ l) (hb : b ∈ l)
    (hpa : order p a = .eq) (hpb : order p b = .eq) : order a b ≠ .gt := by
  apply h.trans a ha p hp b hb
  · rw [h.swap p hp a ha, hpa]
    decide
  · rw [hpb]
    decide

theorem increasing_insertBy (h : PreorderOn order (a :: l)) (hl : l.Pairwise fun a b => order a b ≠ .gt) :
    (insertBy order a l).Pairwise fun a b => order a b ≠ .gt := by
  induction l with
  | nil => exact List.pairwise_singleton _ a
  | cons b rest ih =>
      obtain ⟨hb, hrest⟩ := List.pairwise_cons.mp hl
      unfold insertBy
      by_cases hab : order a b = .gt
      · rw [if_pos hab]
        refine List.pairwise_cons.mpr ⟨fun c hc => ?_, ih (h.mono ?_) hrest⟩
        · rcases List.mem_cons.mp ((insertBy_perm order a rest).subset hc) with rfl | hc
          · exact h.not_gt_of_gt List.mem_cons_self (List.mem_cons_of_mem _ List.mem_cons_self) hab
          · exact hb c hc
        · exact List.cons_subset_cons a (List.subset_cons_self b rest)
      · rw [if_neg hab]
        refine List.pairwise_cons.mpr ⟨fun c hc => ?_, hl⟩
        rcases List.mem_cons.mp hc with rfl | hmem
        · exact hab
        · exact h.trans a List.mem_cons_self b (List.mem_cons_of_mem a List.mem_cons_self) c
            (List.mem_cons_of_mem a hc) hab (hb c hmem)

/-- An item that is put into its place passes none that is equal to it. -/
theorem filter_insertBy (h : PreorderOn order (p :: a :: l)) :
    ((insertBy order a l).filter fun b => order p b = .eq) = (a :: l).filter fun b => order p b = .eq := by
  induction l with
  | nil => rfl
  | cons b rest ih =>
      unfold insertBy
      by_cases hab : order a b = .gt
      · have hne : ¬(order p a = .eq ∧ order p b = .eq) := by
          rintro ⟨hpa, hpb⟩
          exact h.not_gt_of_eq (by simp) (by simp) (by simp) hpa hpb hab
        have hrest := ih (h.mono (List.cons_subset_cons p (List.cons_subset_cons a (List.subset_cons_self b rest))))
        rw [if_pos hab, List.filter_cons, hrest, List.filter_cons, List.filter_cons, List.filter_cons]
        by_cases hpa : order p a = .eq
        · have hpb : order p b ≠ .eq := fun hpb => hne ⟨hpa, hpb⟩
          simp [hpb]
        · simp [hpa]
      · rw [if_neg hab]

theorem filter_sortedBy (h : PreorderOn order (p :: l)) :
    ((sortedBy order l).filter fun b => order p b = .eq) = l.filter fun b => order p b = .eq := by
  induction l with
  | nil => rfl
  | cons a rest ih =>
      have hsub : p :: a :: sortedBy order rest ⊆ p :: a :: rest :=
        List.cons_subset_cons p (List.cons_subset_cons a (sortedBy_perm order rest).subset)
      have hrest := ih (h.mono (List.cons_subset_cons p (List.subset_cons_self a rest)))
      rw [sortedBy, filter_insertBy (h.mono hsub), List.filter_cons, List.filter_cons, hrest]

/-- Under a preorder the sort is a stable one. -/
theorem stablySorted (h : PreorderOn order l) : StablySorted order l (sortedBy order l) := by
  refine ⟨sortedBy_perm order l, ?_, fun p hp => filter_sortedBy (h.mono (List.cons_subset.mpr ⟨hp, .refl l⟩))⟩
  induction l with
  | nil => exact .nil
  | cons a rest ih =>
      have hrest := ih (h.mono (List.subset_cons_self a rest))
      have hsub : a :: sortedBy order rest ⊆ a :: rest := List.cons_subset_cons a (sortedBy_perm order rest).subset
      exact (h.mono hsub).increasing_insertBy hrest

end PreorderOn

end RowQuery
