import RowQuery.Proofs.ComparisonLaws
import RowQuery.Proofs.Wildcards
import Mathlib.Data.List.Induction

namespace RowQuery

namespace Text

variable {c d : Char} {p q s : List Char}

theorem append_prefix_iff (h : p.length = q.length) (s : List Char) : p <+: q ++ s ↔ p = q := by
  constructor
  · rintro ⟨rest, hrest⟩
    exact (List.append_inj hrest h).1
  · rintro rfl
    exact List.prefix_append p s

/-- A character that is no wildcard. -/
def StandsForItself (c : Char) : Prop := c ≠ '%' ∧ c ≠ '_'

theorem matchesPattern_literal_any (hp : ∀ c ∈ p, StandsForItself c) (s : List Char) :
    matchesPattern (p ++ ['%']) s = true ↔ p <+: s := by
  induction p generalizing s with
  | nil =>
      rw [List.nil_append, matchesPattern_any]
      simp [matchesPattern]
  | cons c p ih =>
      obtain ⟨⟨hany, hone⟩, hrest⟩ := List.forall_mem_cons.mp hp
      simp only [List.cons_append, matchesPattern_of_ne hany, ih hrest, List.cons_prefix_iff]
      simp [hone]

theorem matchesPattern_ones (n : Nat) (s : List Char) :
    matchesPattern (List.replicate n '_') s = (s.length == n) := by
  induction n generalizing s with
  | zero => cases s <;> rfl
  | succ n ih =>
      cases s with
      | nil => rfl
      | cons d s => simp [List.replicate_succ, matchesPattern, ih]

def dottedI : Char := Char.ofNat 0x130

theorem length_lowerChar (c : Char) : (lowerChar c).length = if c = dottedI then 2 else 1 := by
  have hdotted : c = dottedI ↔ c.toNat = 0x130 :=
    ⟨fun h => h ▸ rfl, fun h => by rw [← Char.ofNat_toNat c, h, dottedI]⟩
  simp only [hdotted, lowerChar]
  split
  · have hne : c.toNat ≠ 0x130 := by omega
    simp [hne]
  · split
    · rfl
    · cases lowerRuns.find? (·.covers c.toNat) <;> rfl

theorem standsForItself_ofNat {n : Nat} (h : 95 < n) : StandsForItself (Char.ofNat n) := by
  have hvalue : (Char.ofNat n).toNat = n ∨ (Char.ofNat n).toNat = 0 := by
    by_cases hvalid : n.isValidChar
    · exact .inl (by rw [Char.ofNat, dif_pos hvalid]; rfl)
    · exact .inr (by rw [Char.ofNat, dif_neg hvalid]; rfl)
  constructor <;> intro heq <;> rw [heq] at hvalue <;> simp at hvalue <;> omega

section Tables

-- the tables are longer than `decide` goes by itself
set_option maxRecDepth 1000

theorem lowerRuns_above : ∀ run ∈ lowerRuns, 95 < run.first + run.shift := by decide

theorem capitalSigma_not_ignorable : inRanges ignorableRanges capitalSigma.toNat = false := by decide

theorem meetsCased_any : meetsCased ['%'] = false := by decide

end Tables

/-- No wildcard comes from lowering another character. -/
theorem standsForItself_of_mem_lowerChar (hc : StandsForItself c) (h : d ∈ lowerChar c) : StandsForItself d := by
  simp only [lowerChar] at h
  split at h
  · rw [List.mem_singleton] at h
    split at h
    next hupper =>
      simp only [isAsciiUpper, Bool.and_eq_true, decide_eq_true_eq] at hupper
      exact h ▸ standsForItself_ofNat (by omega)
    next => exact h ▸ hc
  · split at h
    · simp only [List.mem_cons, List.not_mem_nil, or_false] at h
      rcases h with rfl | rfl <;> exact ⟨by decide, by decide⟩
    · cases hrun : lowerRuns.find? (·.covers c.toNat) with
      | none =>
          rw [hrun] at h
          exact List.mem_singleton.mp h ▸ hc
      | some run =>
          rw [hrun] at h
          have habove := lowerRuns_above run (List.mem_of_find?_eq_some hrun)
          have hfirst : run.first ≤ c.toNat := by
            have hcovers := List.find?_some hrun
            simp only [CaseRun.covers, Bool.and_eq_true, decide_eq_true_eq] at hcovers
            exact hcovers.1.1
          rw [List.mem_singleton.mp h]
          exact standsForItself_ofNat (by omega)

/-- The lower-case form of a text that stands between two others. -/
def lowerBetween (before after : List Char) : List Char → List Char
  | [] => []
  | c :: rest =>
    (if c = capitalSigma then [lowerSigma before (rest ++ after)] else lowerChar c) ++
      lowerBetween (c :: before) after rest

theorem lowerFrom_append (before s after : List Char) : lowerFrom before (s ++ after) =
    lowerBetween before after s ++ lowerFrom (s.reverse ++ before) after := by
  induction s generalizing before with
  | nil => rfl
  | cons c s ih => simp [lowerFrom, lowerBetween, ih]

theorem lower_append (s after : List Char) :
    lower (s ++ after) = lowerBetween [] after s ++ lowerFrom s.reverse after := by
  rw [lower, lowerFrom_append, List.append_nil]

theorem lower_eq_lowerBetween (s : List Char) : lower s = lowerBetween [] [] s := by
  simpa [lowerFrom] using lower_append s []

theorem lowerBetween_append (before s t after : List Char) : lowerBetween before after (s ++ t) =
    lowerBetween before (t ++ after) s ++ lowerBetween (s.reverse ++ before) after t := by
  induction s generalizing before with
  | nil => rfl
  | cons c s ih => simp [lowerBetween, ih]

theorem length_lowerBetween (before s after : List Char) :
    (lowerBetween before after s).length = s.length + s.count dottedI := by
  induction s generalizing before with
  | nil => rfl
  | cons c s ih =>
      have hsigma : capitalSigma ≠ dottedI := by decide
      have hc : (if c = capitalSigma then [lowerSigma before (s ++ after)] else lowerChar c).length =
          if c = dottedI then 2 else 1 := by
        split
        next h => rw [h, if_neg hsigma]; rfl
        next => exact length_lowerChar c
      rw [lowerBetween, List.length_append, hc, ih, List.length_cons, List.count_cons]
      simp only [beq_iff_eq]
      split <;> omega

theorem length_lower (s : List Char) : (lower s).length = s.length + s.count dottedI := by
  rw [lower_eq_lowerBetween, length_lowerBetween]

theorem standsForItself_lowerSigma (before after : List Char) : StandsForItself (lowerSigma before after) := by
  rw [lowerSigma]
  split <;> exact standsForItself_ofNat (by decide)

theorem standsForItself_of_mem_lowerBetween (h : ∀ c ∈ s, StandsForItself c) (before after : List Char) :
    ∀ d ∈ lowerBetween before after s, StandsForItself d := by
  induction s generalizing before with
  | nil => simp [lowerBetween]
  | cons c s ih =>
      obtain ⟨hc, hs⟩ := List.forall_mem_cons.mp h
      intro d hd
      rcases List.mem_append.mp hd with hd | hd
      · split at hd
        · rw [List.mem_singleton.mp hd]
          exact standsForItself_lowerSigma before (s ++ after)
        · exact standsForItself_of_mem_lowerChar hc hd
      · exact ih hs (c :: before) d hd

/-- The last character of the text that is not ignored is a capital sigma with a cased letter before it, so that the
characters behind the text decide its form. -/
def endsInSigma (s : List Char) : Bool :=
  match s.reverse.dropWhile fun c => inRanges ignorableRanges c.toNat with
  | c :: before => c = capitalSigma && meetsCased before
  | [] => false

theorem meetsCased_cons_of_ignorable (h : inRanges ignorableRanges c.toNat = true) (s : List Char) :
    meetsCased (c :: s) = meetsCased s := by
  simp only [meetsCased, List.dropWhile_cons, h, if_true]

theorem meetsCased_cons (h : inRanges ignorableRanges c.toNat = false) (s : List Char) :
    meetsCased (c :: s) = inRanges casedRanges c.toNat := by
  simp [meetsCased, h]

theorem endsInSigma_snoc_of_ignorable (h : inRanges ignorableRanges c.toNat = true) (s : List Char) :
    endsInSigma (s ++ [c]) = endsInSigma s := by
  simp only [endsInSigma, List.reverse_concat, List.dropWhile_cons, h, if_true]

theorem endsInSigma_snoc (h : inRanges ignorableRanges c.toNat = false) (s : List Char) :
    endsInSigma (s ++ [c]) = (decide (c = capitalSigma) && meetsCased s.reverse) := by
  simp [endsInSigma, h]

theorem lowerSigma_eq_iff (before after after' : List Char) : lowerSigma before after = lowerSigma before after' ↔
    (meetsCased before = true → meetsCased after = meetsCased after') := by
  have hforms : Char.ofNat 0x3C2 ≠ Char.ofNat 0x3C3 := by decide
  simp only [lowerSigma]
  cases meetsCased before <;> cases meetsCased after <;> cases meetsCased after' <;> simp [hforms, hforms.symm]

/-- What stands behind a text makes a difference to its lower-case form by the first character that is not ignored, and
only for a sigma at its end. -/
theorem lowerBetween_eq_iff (s after after' : List Char) : lowerBetween [] after s = lowerBetween [] after' s ↔
    (endsInSigma s = true → meetsCased after = meetsCased after') := by
  -- From the end, as characters that are ignored there leave the question to the ones before them.
  induction s using List.reverseRecOn generalizing after after' with
  | nil => simp [lowerBetween, endsInSigma]
  | append_singleton s c ih =>
      have hlength : (lowerBetween [] ([c] ++ after) s).length = (lowerBetween [] ([c] ++ after') s).length := by
        rw [length_lowerBetween, length_lowerBetween]
      rw [lowerBetween_append, lowerBetween_append, List.append_eq_append_iff_of_size_eq_left hlength, ih,
        List.append_nil]
      cases hc : inRanges ignorableRanges c.toNat with
      | true =>
          have hsigma : c ≠ capitalSigma := by
            rintro rfl
            simp [capitalSigma_not_ignorable] at hc
          simp [meetsCased_cons_of_ignorable hc, endsInSigma_snoc_of_ignorable hc, lowerBetween, hsigma]
      | false =>
          simp only [List.singleton_append, meetsCased_cons hc, endsInSigma_snoc hc, implies_true, true_and]
          by_cases hsigma : c = capitalSigma
          · simp [lowerBetween, hsigma, lowerSigma_eq_iff]
          · simp [lowerBetween, hsigma]

/-- A text against its own beginning and `%`: only the form of a sigma at the end of the beginning can differ. -/
theorem matchesPattern_beginning {a : List Char} (ha : ∀ c ∈ a, StandsForItself c) (b : List Char) :
    matchesPattern (lower (a ++ ['%'])) (lower (a ++ b)) = !(endsInSigma a && meetsCased b) := by
  have hpattern : lower (a ++ ['%']) = lowerBetween [] ['%'] a ++ ['%'] := by
    rw [lower_append]
    rfl
  have hlength : (lowerBetween [] ['%'] a).length = (lowerBetween [] b a).length := by
    rw [length_lowerBetween, length_lowerBetween]
  rw [Bool.eq_iff_iff, hpattern, matchesPattern_literal_any (standsForItself_of_mem_lowerBetween ha [] ['%']),
    lower_append a b, append_prefix_iff hlength, lowerBetween_eq_iff, meetsCased_any]
  cases endsInSigma a <;> cases meetsCased b <;> simp

theorem lowerFrom_ones (before : List Char) (n : Nat) :
    lowerFrom before (List.replicate n '_') = List.replicate n '_' := by
  induction n generalizing before with
  | zero => rfl
  | succ n ih =>
      rw [List.replicate_succ, lowerFrom, ih]
      rfl

theorem matchesPattern_lower_ones (n : Nat) (s : List Char) :
    matchesPattern (lower (List.replicate n '_')) (lower s) = (s.length + s.count dottedI == n) := by
  rw [lower, lowerFrom_ones, matchesPattern_ones, length_lower]

end Text

namespace Tuple

variable {t : Tuple} {field operator : String}

theorem meets_like_text {s : String} (hop : Operator.normalized operator = "like") (hs : t.resolve field = .string s)
    (pattern : String) : t.meets (.compare field operator (.string pattern)) =
      .ok (Text.matchesPattern (Text.lower pattern.toList) (Text.lower s.toList)) := by
  have hlike : Operator.ofText? (Operator.normalized operator) = some .like := by rw [hop]; rfl
  simp [meets, Operator.evaluate, hlike, hs, Operator.apply, Json.isNull, Operator.isLike, Operator.plainText]

/-- A text that begins with given characters is like these and `%`, unless the last of them is a sigma whose lower-case
form the rest of the text decides. It is like as many `_` as it has characters, a dotted capital I counted twice. -/
theorem meets_like_lowered (hop : Operator.normalized operator = "like") (t : Tuple) (field : String) :
    (∀ a b : String, '%' ∉ a.toList → '_' ∉ a.toList → t.resolve field = .string (a ++ b) →
      t.meets (.compare field operator (.string (a ++ "%"))) =
        .ok !(Text.endsInSigma a.toList && Text.meetsCased b.toList)) ∧
    (∀ (s : String) (n : Nat), t.resolve field = .string s →
      t.meets (.compare field operator (.string (String.ofList (List.replicate n '_')))) =
        .ok (s.toList.length + s.toList.count Text.dottedI == n)) := by
  constructor
  · intro a b hany hone hs
    have ha : ∀ c ∈ a.toList, Text.StandsForItself c :=
      fun c hc => ⟨fun h => hany (h ▸ hc), fun h => hone (h ▸ hc)⟩
    rw [meets_like_text hop hs, String.toList_append, String.toList_append]
    exact congrArg Except.ok (Text.matchesPattern_beginning ha b.toList)
  · intro s n hs
    rw [meets_like_text hop hs, String.toList_ofList, Text.matchesPattern_lower_ones]

/-- The tuple of a person with a given name. -/
def named (name : String) : Tuple := .ofRow "people" (.ofList [("name", .string name)])

theorem resolve_named (name : String) : (named name).resolve "name" = .string name := by
  rfl

theorem meets_like_lowered_names :
    (named "Annika").meets (.compare "name" " Like" (.string ("Ann" ++ "%"))) = .ok true ∧
    (named "ΑΣΑ").meets (.compare "name" " Like" (.string ("ΑΣ" ++ "%"))) = .ok false ∧
    (named "İ").meets (.compare "name" " Like" (.string (String.ofList (List.replicate 2 '_')))) = .ok true := by
  have hop : Operator.normalized " Like" = "like" := by decide
  have hsigma : (Text.endsInSigma "ΑΣ".toList && Text.meetsCased "Α".toList) = true := by decide +kernel
  have hlatin : (Text.endsInSigma "Ann".toList && Text.meetsCased "ika".toList) = false := by decide +kernel
  have hlength : "İ".toList.length + "İ".toList.count Text.dottedI = 2 := by decide
  have hbegins := fun (name : String) => (meets_like_lowered hop (named name) "name").1
  refine ⟨?_, ?_, ?_⟩
  · rw [hbegins "Annika" "Ann" "ika" (by decide) (by decide) (resolve_named "Annika"), hlatin, Bool.not_false]
  · rw [hbegins "ΑΣΑ" "ΑΣ" "Α" (by decide) (by decide) (resolve_named "ΑΣΑ"), hsigma, Bool.not_true]
  · rw [(meets_like_lowered hop (named "İ") "name").2 "İ" 2 (resolve_named "İ"), hlength, beq_self_eq_true]

/-- A text need not be like its own beginning with `%`, nor like a `_` for each of its characters. -/
theorem lowering_breaks_like :
    (¬∀ (t : Tuple) (field a b : String), '%' ∉ a.toList → '_' ∉ a.toList →
      t.resolve field = .string (a ++ b) → t.meets (.compare field "like" (.string (a ++ "%"))) = .ok true) ∧
    (¬∀ (t : Tuple) (field s : String), t.resolve field = .string s →
      t.meets (.compare field "like" (.string (String.ofList (List.replicate s.toList.length '_')))) = .ok true) := by
  constructor
  · intro h
    have hmeets := h (named "ΑΣΑ") "name" "ΑΣ" "Α" (by decide) (by decide) (resolve_named "ΑΣΑ")
    revert hmeets
    decide +kernel
  · intro h
    have hmeets := h (named "İ") "name" "İ" (resolve_named "İ")
    revert hmeets
    decide

end Tuple

end RowQuery
