import RowQuery.Proofs.WrittenDates

namespace RowQuery

namespace Timestamp

variable {t : Tuple} {field operator : String} {v : Json} {d e : DateText}

theorem meets_date (hd : d.WrittenIn (t.resolve field)) (he : e.WrittenIn v) :
    t.meets (.date field operator v) = if d.IsReal ∧ e.IsReal then
      Comparison.evaluate operator (some (compare d.text e.text)) else .ok false := by
  rw [Tuple.meets, date?_writtenIn hd, date?_writtenIn he]
  by_cases hdreal : d.IsReal
  · by_cases hereal : e.IsReal
    · simp [hdreal, hereal, d.order_date]
    · simp [hereal]
  · simp [hdreal]

theorem meets_month (hd : d.WrittenIn (t.resolve field)) :
    t.meets (.month field operator v) = if d.IsReal then
      Comparison.evaluate operator ((Json.ofMonth d.month.value).compare? v) else .ok false := by
  rw [Tuple.meets, date?_writtenIn hd]
  by_cases hdreal : d.IsReal
  · simp [hdreal, DateText.date]
  · simp [hdreal]

theorem compare?_number_string {n : Number} {s : String} {x y : Double} (hx : (Json.number n).number? = some x)
    (hy : (Json.string s).number? = some y) : (Json.number n).compare? (.string s) = x.compare? y := by
  simp only [Json.compare?, hx, hy]

/-- A month is compared with two digits as the digits that it is written with are. -/
theorem compare?_month (month digits : Digits 2) :
    (Json.ofMonth month.value).compare? (.string digits.text) = some (compare month.text digits.text) := by
  have hmonth := month.value_lt
  have hdigits := digits.value_lt
  have hnumber : (Json.ofMonth month.value).number? = some (Double.ofInt month.value) := by
    show some (Double.ofInt (Int64.ofNat month.value).toInt) = _
    rw [Int64.toInt_ofNat_of_lt (by omega)]
  calc (Json.ofMonth month.value).compare? (.string digits.text)
      = (Double.ofInt month.value).compare? (Double.ofInt digits.value) :=
        compare?_number_string hnumber digits.number?_text
    _ = some (compare (month.value : Int) digits.value) := Double.compare?_ofInt (by omega) (by omega)
    _ = some (compare month.text digits.text) := by rw [compare_cast, Digits.compare_text]

theorem evaluate_comparison {operator : String} {c : Comparison} (h : Comparison.ofText? operator = some c)
    (o : Option Ordering) : Comparison.evaluate operator o = .ok (c.holds o) := by
  rw [Comparison.evaluate, h]

/-- The time behind a day, and an offset behind that, do not move the day: a text gives the day that it begins with if
the calendar has it, and otherwise none. So two texts are compared by their days as by the ten characters that these
are written with, and the month is the two digits that it is written with. -/
theorem time_keeps_date :
    (∀ (d : DateText) (a : Json), d.WrittenIn a → a.date? = if d.IsReal then some d.date else none) ∧
    ∀ (t : Tuple) (field : String) (d : DateText), d.WrittenIn (t.resolve field) →
      (∀ (e : DateText) (v : Json), e.WrittenIn v →
        (d.IsReal → e.IsReal → ∀ operator c, Comparison.ofText? operator = some c →
          t.meets (.date field operator v) = .ok (c.holds (some (compare d.text e.text)))) ∧
        (¬(d.IsReal ∧ e.IsReal) → ∀ operator, t.meets (.date field operator v) = .ok false)) ∧
      (d.IsReal → ∀ operator c, Comparison.ofText? operator = some c →
        (∀ v, t.meets (.month field operator v) = .ok (c.holds ((Json.ofMonth d.month.value).compare? v))) ∧
        ∀ digits : Digits 2, t.meets (.month field operator (.string digits.text)) =
          .ok (c.holds (some (compare d.month.text digits.text)))) ∧
      (¬d.IsReal → ∀ operator v, t.meets (.month field operator v) = .ok false) := by
  refine ⟨fun d a => date?_writtenIn, fun t field d hd => ⟨fun e v he => ⟨?_, ?_⟩, ?_, ?_⟩⟩
  · intro hdreal hereal operator c hop
    rw [meets_date hd he, if_pos ⟨hdreal, hereal⟩, evaluate_comparison hop]
  · intro hnot operator
    rw [meets_date hd he, if_neg hnot]
  · intro hreal operator c hop
    have hmonth : ∀ v, t.meets (.month field operator v) =
        .ok (c.holds ((Json.ofMonth d.month.value).compare? v)) := by
      intro v
      rw [meets_month hd, if_pos hreal, evaluate_comparison hop]
    exact ⟨hmonth, fun digits => by rw [hmonth, compare?_month]⟩
  · intro hnot operator v
    rw [meets_month hd, if_neg hnot]

def leapDay : DateText :=
  ⟨.ofChars ['2', '0', '2', '4'] rfl rfl, .ofChars ['0', '2'] rfl rfl, .ofChars ['2', '9'] rfl rfl⟩

def dayAfter : DateText :=
  ⟨.ofChars ['2', '0', '2', '4'] rfl rfl, .ofChars ['0', '3'] rfl rfl, .ofChars ['0', '1'] rfl rfl⟩

/-- A day that the calendar does not have. -/
def missingDay : DateText :=
  ⟨.ofChars ['2', '0', '2', '3'] rfl rfl, .ofChars ['0', '2'] rfl rfl, .ofChars ['2', '9'] rfl rfl⟩

/-- The second that is added at the end of a day. -/
def leapSecond : TimeText where
  hour := .ofChars ['2', '3'] rfl rfl
  minute := .ofChars ['5', '9'] rfl rfl
  second := .ofChars ['6', '0'] rfl rfl
  hour_le := by decide
  minute_le := by decide
  second_le := by decide

def started (text : String) : Tuple := .ofRow "visits" (.ofList [("started", .string text)])

theorem leapDay_writtenIn : leapDay.WrittenIn ((started " 2024-02-29t23:59:60.5+14:00\n").resolve "started") := by
  have hfraction : FractionText ['.', '5'] := .point (List.cons_ne_nil _ _) (List.forall_mem_singleton.mpr rfl)
  have hzone : ZoneText ('+' :: (['1', '4'] ++ ':' :: ['0', '0'])) :=
    .offset (.inl rfl) (.ofChars ['1', '4'] rfl rfl) (.ofChars ['0', '0'] rfl rfl) (by decide) (by decide)
  have hmark : 't' ∈ ['T', 't', ' '] := by decide
  exact ⟨[' '], _, ['\n'], .zoned leapSecond hmark (.inr hfraction) hzone, List.forall_mem_singleton.mpr rfl,
    List.forall_mem_singleton.mpr rfl, by decide⟩

/-- The last second of a leap day, far in the east, is before the next day, and no day is compared with one that does
not exist. -/
theorem time_keeps_date_leapDay :
    let t := started " 2024-02-29t23:59:60.5+14:00\n"
    (t.resolve "started").date? = some ⟨2024, 2, 29⟩ ∧
    t.meets (.date "started" "<" (.string "2024-03-01 23:59:60")) = .ok true ∧
    t.meets (.date "started" "!=" (.string "2023-02-29")) = .ok false ∧
    t.meets (.month "started" "<=" (.string "02")) = .ok true ∧
    (started "2023-02-29").meets (.month "started" "=" (.string "02")) = .ok false := by
  intro t
  have hleap : leapDay.WrittenIn (t.resolve "started") := leapDay_writtenIn
  have hafter : dayAfter.WrittenIn (.string "2024-03-01 23:59:60") :=
    ⟨[], _, [], .spaced leapSecond, List.forall_mem_nil _, List.forall_mem_nil _, rfl⟩
  have hmissing : missingDay.WrittenIn (.string "2023-02-29") :=
    ⟨[], _, [], .date, List.forall_mem_nil _, List.forall_mem_nil _, rfl⟩
  have hvisit : missingDay.WrittenIn ((started "2023-02-29").resolve "started") := hmissing
  obtain ⟨hdate, htests⟩ := time_keeps_date
  obtain ⟨hcompared, hmonth, -⟩ := htests t "started" leapDay hleap
  obtain ⟨-, -, hnone⟩ := htests _ "started" missingDay hvisit
  refine ⟨?_, ?_, ?_, ?_, ?_⟩
  · rw [hdate leapDay _ hleap, if_pos (by decide)]
    rfl
  · exact ((hcompared dayAfter _ hafter).1 (by decide) (by decide) "<" .lt rfl).trans (by decide)
  · exact (hcompared missingDay _ hmissing).2 (by decide) "!="
  · exact ((hmonth (by decide) "<=" .le rfl).2 (.ofChars ['0', '2'] rfl rfl)).trans (by decide)
  · exact hnone (by decide) "=" (.string "02")

end Timestamp

end RowQuery
