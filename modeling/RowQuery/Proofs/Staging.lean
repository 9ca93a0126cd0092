import RowQuery.Proofs.Compilation

namespace RowQuery

namespace Stage

/-- The first stage stands before the second in the pipeline. -/
def Precedes (a b : Stage) : Prop := pipeline.idxOf a < pipeline.idxOf b

instance (a b : Stage) : Decidable (a.Precedes b) := inferInstanceAs (Decidable (_ < _))

theorem pipeline_pairwise : pipeline.Pairwise Precedes := by decide

theorem ordered_congr {stages other : List Stage} (h : ∀ stage, stage ∈ other ↔ stage ∈ stages) :
    ordered other = ordered stages := by
  apply List.filter_congr
  intro stage _
  rw [Bool.eq_iff_iff, List.contains_iff_mem, List.contains_iff_mem, h stage]

theorem filter_append {early late l : List Stage} (hcut : ∀ a ∈ early, ∀ b ∈ late, a.Precedes b)
    (hl : l.Pairwise Precedes) :
    l.filter ((early ++ late).contains ·) = l.filter (early.contains ·) ++ l.filter (late.contains ·) := by
  induction l with
  | nil => rfl
  | cons stage rest ih =>
      obtain ⟨hstage, hrest⟩ := List.pairwise_cons.mp hl
      by_cases hlate : stage ∈ late
      -- From the first stage on that comes after the cut, none comes before it.
      · have hnone : ∀ other ∈ stage :: rest, other ∉ early := by
          intro other hother hearly
          have hbefore : other.Precedes stage := hcut other hearly stage hlate
          rcases List.mem_cons.mp hother with rfl | hother
          · exact Nat.lt_irrefl _ hbefore
          · exact Nat.lt_asymm hbefore (hstage other hother)
        have hempty : (stage :: rest).filter (early.contains ·) = [] := by
          apply List.filter_eq_nil_iff.mpr
          intro other hother
          exact mt List.contains_iff_mem.mp (hnone other hother)
        rw [hempty, List.nil_append]
        apply List.filter_congr
        intro other hother
        simp [hnone other hother]
      · have hneither : late.contains stage = false := by simpa using hlate
        have hsame : (early ++ late).contains stage = early.contains stage := by
          rw [List.contains_append, hneither, Bool.or_false]
        simp only [List.filter_cons, hsame, hneither, ih hrest]
        cases early.contains stage <;> rfl

theorem ordered_append {early late : List Stage} (h : ∀ a ∈ early, ∀ b ∈ late, a.Precedes b) :
    ordered (early ++ late) = ordered early ++ ordered late :=
  filter_append h pipeline_pairwise

/-- The limit that a compilation sets, unless it sets none. -/
def newLimit? (d : Descriptor) (stages : List Stage) : Option UInt64 :=
  if .limit ∈ stages then d.limit.filter (0 < ·) else none

theorem foldl_limited_ordered (d : Descriptor) (stages : List Stage) (p : Option Pagination) :
    (ordered stages).foldl (limited d) p =
      match newLimit? d stages with
      | some n => some { limit := some n, offset := p.bind Pagination.offset }
      | none => p := by
  have hpipeline : pipeline = pipeline.dropLast ++ [.limit] := rfl
  have hlimit : .limit ∉ pipeline.dropLast.filter (stages.contains ·) := by
    intro hmem
    exact absurd (List.mem_filter.mp hmem).1 (by decide)
  have hpositive : (fun n : UInt64 => decide (0 < n)) = fun n => decide (n ≠ 0) := by
    funext n
    exact decide_eq_decide.mpr UInt64.pos_iff_ne_zero
  rw [ordered, hpipeline, List.filter_append, List.foldl_append, foldl_limited hlimit, newLimit?]
  by_cases h : .limit ∈ stages
  · rw [List.filter_cons_of_pos (List.contains_iff_mem.mpr h), if_pos h, hpositive]
    rfl
  · rw [List.filter_cons_of_neg (mt List.contains_iff_mem.mp h), if_neg h]
    rfl

end Stage

namespace Query

theorem compileStages_congr {stages other : List Stage} (h : ∀ stage, stage ∈ other ↔ stage ∈ stages) (q : Query)
    (d : Descriptor) : q.compileStages d other = q.compileStages d stages :=
  congrArg (List.foldl (Stage.apply d) q) (Stage.ordered_congr h)

theorem compileStages_append {early late : List Stage} (h : ∀ a ∈ early, ∀ b ∈ late, a.Precedes b) (q : Query)
    (d : Descriptor) : (q.compileStages d early).compileStages d late = q.compileStages d (early ++ late) := by
  show (Stage.ordered late).foldl (Stage.apply d) ((Stage.ordered early).foldl (Stage.apply d) q) =
    (Stage.ordered (early ++ late)).foldl (Stage.apply d) q
  rw [Stage.ordered_append h, List.foldl_append]

/-- A compilation goes by the set of its stages. It can be cut where all stages of one part come before those of the
other, and taken up again there. It adds to each list of a query what it adds to that of a new one, stage by stage in
the order of the pipeline and item by item, and it keeps the table, the columns and an offset; a limit it replaces
only by a positive one. -/
theorem compileStages_appends (q : Query) (d : Descriptor) (stages : List Stage) :
    (∀ other : List Stage, (∀ stage, stage ∈ other ↔ stage ∈ stages) →
      q.compileStages d other = q.compileStages d stages) ∧
    (∀ late : List Stage, (∀ a ∈ stages, ∀ b ∈ late, a.Precedes b) →
      (q.compileStages d stages).compileStages d late = q.compileStages d (stages ++ late)) ∧
    ∀ table, ∃ fresh : Query, ({ table } : Query).compileStages d stages = fresh ∧
      fresh.loads = (if .relations ∈ stages then Stage.loads d .relations else []) ∧
      fresh.joins = (if .joins ∈ stages then Stage.joined d .joins else []) ∧
      fresh.clauses = (Stage.pipeline.filter (· ∈ stages)).flatMap (Stage.clauses d) ∧
      fresh.orders = (if .order ∈ stages then d.order.toList else []) ∧
      q.compileStages d stages = { q with
        loads := q.loads ++ fresh.loads
        joins := q.joins ++ fresh.joins
        clauses := q.clauses ++ fresh.clauses
        orders := q.orders ++ fresh.orders
        pagination :=
          match Stage.newLimit? d stages with
          | some n => some { limit := some n, offset := q.pagination.bind Pagination.offset }
          | none => q.pagination } := by
  refine ⟨fun other h => compileStages_congr h q d, fun late h => compileStages_append h q d, fun table => ?_⟩
  have hloads : ∀ stage, stage ≠ .relations → Stage.loads d stage = [] := by
    intro stage hstage
    cases stage <;> simp_all [Stage.loads]
  have horders : ∀ stage, stage ≠ .order → Stage.orders d stage = [] := by
    intro stage hstage
    cases stage <;> simp_all [Stage.orders]
  have hclauses : Stage.ordered stages = Stage.pipeline.filter (· ∈ stages) := by
    apply List.filter_congr
    intro stage _
    exact List.contains_eq_mem stage stages
  refine ⟨_, rfl, ?_, ?_, ?_, ?_, ?_⟩
  · rw [compileStages_eq, Stage.flatMap_ordered hloads]
    rfl
  · rw [compileStages_joins]
    rfl
  · rw [compileStages_clauses, hclauses]
    rfl
  · rw [compileStages_eq, Stage.flatMap_ordered horders]
    rfl
  · rw [compileStages_eq q, compileStages_eq { table }, Stage.foldl_limited_ordered d stages q.pagination]
    rfl

end Query

/-- The second page of a list of people. -/
def Query.secondPage : Query := ({ table := "people" } : Query).paginate 2 10

/-- Three purchases of people of a name. -/
def Descriptor.shortlist : Descriptor where
  joins := some [⟨"purchases", "purchases.person", "=", "people.id"⟩]
  whereAll := some [⟨"name", "=", .string "ann"⟩]
  limit := some 3

theorem Query.compileStages_appends_shortlist :
    (∀ a ∈ [Stage.whereAll, .joins], ∀ b ∈ [Stage.limit], a.Precedes b) ∧
    (secondPage.compileStages .shortlist [.whereAll, .joins]).compileStages .shortlist [.limit] =
      secondPage.compileStages .shortlist [.limit, .joins, .whereAll, .joins] ∧
    (secondPage.compileStages .shortlist [.limit, .joins, .whereAll, .joins]).pagination =
      some { limit := some 3, offset := some 10 } := by
  have hcut : ∀ a ∈ [Stage.whereAll, .joins], ∀ b ∈ [Stage.limit], a.Precedes b := by decide
  have hsame : ∀ stage, stage ∈ [Stage.limit, .joins, .whereAll, .joins] ↔
      stage ∈ [Stage.whereAll, .joins] ++ [.limit] := by
    intro stage
    cases stage <;> decide
  obtain ⟨-, hresume, -⟩ := compileStages_appends secondPage .shortlist [.whereAll, .joins]
  obtain ⟨hset, -, hadds⟩ := compileStages_appends secondPage .shortlist ([.whereAll, .joins] ++ [.limit])
  obtain ⟨fresh, -, -, -, -, -, hquery⟩ := hadds "people"
  refine ⟨hcut, (hresume [.limit] hcut).trans (hset _ hsame).symm, ?_⟩
  rw [hset _ hsame, hquery]
  rfl

end RowQuery
