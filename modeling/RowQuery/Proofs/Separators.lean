import RowQuery.Proofs.LooseDates
import RowQuery.Proofs.Respelling

namespace RowQuery

namespace Timestamp

variable {s r tail : List Char} {t : Timestamp} {c : Char}

/-- A day and a time of it, as they are written. -/
def ClockText.on (time : ClockText) (d : DayText) : Timestamp :=
  ⟨d.year.value, d.month.value, d.day.value, time.hour.value, time.minute.value, time.second.value⟩

theorem ofLayout?_of_rest {layout : List Item} (h : readItems? layout {} s = some (t, r)) :
    ofLayout? layout s = if r = [] ∧ t.IsValid then some t else none := by
  rw [ofLayout?, h]
  cases r with
  | nil => simp
  | cons c r => simp

theorem ofLayout?_of_none {layout : List Item} (h : readItems? layout {} s = none) : ofLayout? layout s = none := by
  rw [ofLayout?, h]

theorem trimStart_clock (time : ClockText) (r : List Char) :
    Text.trimStart (time.chars ++ r) = time.chars ++ r := by
  obtain ⟨c, digits, hchars⟩ := List.exists_cons_of_ne_nil time.hour.ne_nil
  have hc : c.isDigit = true := time.hour.isDigit c (by simp [hchars])
  rw [ClockText.chars, hchars]
  exact Text.trimStart_eq_self (by simpa using isBlank_of_isDigit hc)

theorem readItems?_spaced (d : DayText) (time : ClockText) (items : List Item) (htail : EndsNumber tail) :
    readItems? (looseDate ++ .gap :: looseTime ++ items) {} (d.chars ++ ' ' :: (time.chars ++ tail)) =
      readItems? items (time.on d) tail := by
  have hgap : ∀ t, Item.gap.read? t (' ' :: (time.chars ++ tail)) = some (t, time.chars ++ tail) := by
    intro t
    show some (t, Text.trimStart (time.chars ++ tail)) = _
    rw [trimStart_clock]
  rw [List.append_assoc, readItems?_looseDate d _ _ (endsNumber_cons rfl _), List.cons_append,
    readItems?_cons (hgap _), readItems?_looseTime time items _ htail]
  rfl

theorem readItems?_joined (d : DayText) (time : ClockText) (htail : EndsNumber tail) :
    readItems? (looseDate ++ .mark ['T'] :: looseTime) {} (d.chars ++ 'T' :: (time.chars ++ tail)) =
      some (time.on d, tail) := by
  rw [readItems?_looseDate d _ _ (endsNumber_cons rfl _), readItems?_cons (read?_mark (by decide) _ _),
    ← List.append_nil looseTime, readItems?_looseTime time [] _ htail]
  rfl

theorem readItems?_gap_joined (d : DayText) (items : List Item) (r : List Char) :
    readItems? (looseDate ++ .gap :: looseTime ++ items) {} (d.chars ++ 'T' :: r) = none := by
  have htrim : Text.trimStart ('T' :: r) = 'T' :: r := Text.trimStart_eq_self (by simp [Text.isBlank])
  rw [List.append_assoc, readItems?_looseDate d _ _ (endsNumber_cons rfl _), List.cons_append,
    readItems?_cons (show Item.gap.read? _ _ = some (_, Text.trimStart ('T' :: r)) from rfl), htrim, looseTime,
    List.cons_append, readItems?]
  simp [Item.read?, readLoose?, htrim, readNumber?, leadingDigits, Field.width]

theorem readItems?_mark_spaced (d : DayText) (items : List Item) (r : List Char) :
    readItems? (looseDate ++ .mark ['T'] :: items) {} (d.chars ++ ' ' :: r) = none := by
  rw [readItems?_looseDate d _ _ (endsNumber_cons rfl _)]
  simp [readItems?, Item.read?]

theorem ofLayout?_looseDate (d : DayText) (hc : c.isDigit = false) (r : List Char) :
    ofLayout? looseDate (d.chars ++ c :: r) = none := by
  have hread := readItems?_looseDate d [] {} (endsNumber_cons hc r)
  rw [List.append_nil] at hread
  rw [ofLayout?_of_rest hread]
  simp

theorem findSome?_cons_eq_or {α β : Type} (f : α → Option β) (a : α) (l : List α) :
    (a :: l).findSome? f = (f a).or (l.findSome? f) := by
  rw [List.findSome?_cons]
  cases f a <;> rfl

theorem findSome?_joined (d : DayText) (time : ClockText) (htail : EndsNumber tail) :
    layouts.findSome? (ofLayout? · (d.chars ++ 'T' :: (time.chars ++ tail))) =
      (ofLayout? internet (d.chars ++ 'T' :: (time.chars ++ tail))).or
        (if tail = [] ∧ (time.on d).IsValid then some (time.on d) else none) := by
  have hgap := ofLayout?_of_none (readItems?_gap_joined d [] (time.chars ++ tail))
  have hfraction := ofLayout?_of_none (readItems?_gap_joined d [.fraction] (time.chars ++ tail))
  have hmark := ofLayout?_of_rest (readItems?_joined d time htail)
  have hdate := ofLayout?_looseDate d (c := 'T') rfl (time.chars ++ tail)
  rw [List.append_nil] at hgap
  simp only [layouts, findSome?_cons_eq_or, hgap, hfraction, hmark, hdate, List.findSome?_nil, Option.none_or,
    Option.or_none]

theorem findSome?_spaced (d : DayText) (time : ClockText) (htail : EndsNumber tail) :
    layouts.findSome? (ofLayout? · (d.chars ++ ' ' :: (time.chars ++ tail))) =
      (ofLayout? internet (d.chars ++ ' ' :: (time.chars ++ tail))).or
        (if (tail = [] ∨ FractionText tail) ∧ (time.on d).IsValid then some (time.on d) else none) := by
  have hgap := ofLayout?_of_rest (readItems?_spaced d time [] htail)
  have hfraction : ofLayout? (looseDate ++ .gap :: looseTime ++ [.fraction]) (d.chars ++ ' ' :: (time.chars ++ tail)) =
      if (tail = [] ∨ FractionText tail) ∧ (time.on d).IsValid then some (time.on d) else none := by
    have hread := readItems?_spaced d time [.fraction] htail
    simp only [ofLayout?, hread, ← readFraction?_eq_nil]
    cases hf : readFraction? tail with
    | none => simp [readItems?, Item.read?, hf]
    | some r => cases r <;> simp [readItems?, Item.read?, hf]
  have hmark := ofLayout?_of_none (readItems?_mark_spaced d looseTime (time.chars ++ tail))
  have hdate := ofLayout?_looseDate d (c := ' ') rfl (time.chars ++ tail)
  rw [List.append_nil] at hgap
  simp only [layouts, findSome?_cons_eq_or, hgap, hfraction, hmark, hdate, List.findSome?_nil, Option.none_or,
    Option.or_none]
  -- A layout without a fraction fits nothing that the one with a fraction does not fit.
  by_cases htail : tail = []
  · simp [htail]
  · simp [htail]

/-- An offset from universal time, whose minus sign may also be that of mathematics. -/
inductive OffsetText : List Char → Prop
  | zone {z} (hz : ZoneText z) : OffsetText z
  | minus (hours minutes : Digits 2) (hhours : hours.value < 24) (hminutes : minutes.value < 60) :
      OffsetText (Char.ofNat 0x2212 :: (hours.chars ++ ':' :: minutes.chars))

/-- A point in time as a value of a row or a query, but for the mark between its day and its time. -/
structure MomentText where
  before : List Char := []
  day : DayText
  time : ClockText
  fraction : List Char := []
  offset : List Char := []
  after : List Char := []
  hbefore : ∀ c ∈ before, Text.isBlank c = true := by simp
  hfraction : fraction = [] ∨ FractionText fraction := by simp
  hoffset : offset = [] ∨ OffsetText offset := by simp
  hafter : ∀ c ∈ after, Text.isBlank c = true := by simp

namespace MomentText

/-- What stands behind the time. -/
def ending (m : MomentText) : List Char := m.fraction ++ m.offset

/-- The characters of a moment whose day and time have a mark between them, without the blanks around them. -/
def chars (m : MomentText) (mark : Char) : List Char := m.day.chars ++ mark :: (m.time.chars ++ m.ending)

def written (m : MomentText) (mark : Char) : Json := .string (.ofList (m.before ++ m.chars mark ++ m.after))

/-- The calendar has the day, and the day has the time. -/
def IsValid (m : MomentText) : Prop := m.day.date.IsValid ∧ m.time.IsValid

instance (m : MomentText) : Decidable m.IsValid := inferInstanceAs (Decidable (_ ∧ _))

/-- There is a fraction of a second behind the time and no offset behind that. -/
def EndsInFraction (m : MomentText) : Prop := m.fraction ≠ [] ∧ m.offset = []

instance (m : MomentText) : Decidable m.EndsInFraction := inferInstanceAs (Decidable (_ ∧ _))

end MomentText

theorem OffsetText.stops {z : List Char} (h : OffsetText z) : Stops z := by
  cases h with
  | zone hz => exact stops_zoneText hz
  | minus =>
      intro c hc
      obtain rfl := Option.some.inj hc
      decide

theorem OffsetText.endsSolid {z : List Char} (h : OffsetText z) : EndsSolid z := by
  cases h with
  | zone hz => exact hz.endsSolid
  | minus hours minutes => exact (((endsSolid_digits minutes (by decide)).cons ':').append hours.chars).cons _

theorem OffsetText.ne_nil {z : List Char} (h : OffsetText z) : z ≠ [] := by
  rintro rfl
  obtain ⟨c, hlast, -⟩ := h.endsSolid
  cases hlast

theorem FractionText.exists_digits {f : List Char} (h : FractionText f) :
    ∃ digits, f = '.' :: digits ∧ ∀ c ∈ digits, c.isDigit = true := by
  cases h with
  | point hne hdigits => exact ⟨_, rfl, hdigits⟩

namespace MomentText

variable (m : MomentText)

theorem endsNumber_ending : EndsNumber m.ending := by
  rw [ending]
  rcases m.hfraction with hf | hf
  · rcases m.hoffset with hz | hz
    · simp [hf, hz, EndsNumber]
    · rw [hf, List.nil_append]
      exact hz.stops.endsNumber
  · obtain ⟨digits, hpoint, -⟩ := hf.exists_digits
    rw [hpoint]
    exact endsNumber_cons rfl _

/-- With an offset behind it an ending is no fraction: the offset begins with a character that is in none but at its
front, and not with the point that is there. -/
theorem fractionText_ending : FractionText m.ending ↔ m.EndsInFraction := by
  constructor
  · intro h
    obtain ⟨digits, hending, hdigits⟩ := h.exists_digits
    rw [ending] at hending
    have hz : m.offset = [] := by
      refine m.hoffset.resolve_right fun hz => ?_
      obtain ⟨z, rest, hoffset⟩ := List.exists_cons_of_ne_nil hz.ne_nil
      obtain ⟨hdigit, hpoint⟩ := hz.stops z (by rw [hoffset]; rfl)
      rw [hoffset] at hending
      rcases m.hfraction with hf | hf
      · rw [hf] at hending
        exact hpoint (List.cons.inj hending).1
      · obtain ⟨before, hf, -⟩ := hf.exists_digits
        rw [hf] at hending
        have hmem : z ∈ digits := by
          rw [← (List.cons.inj hending).2]
          simp
        exact absurd (hdigits z hmem) (by simp [hdigit])
    refine ⟨?_, hz⟩
    rintro hf
    rw [hf, hz] at hending
    cases hending
  · rintro ⟨hf, hz⟩
    rw [ending, hz, List.append_nil]
    exact m.hfraction.resolve_left hf

theorem endsSolid_chars (mark : Char) : EndsSolid (m.chars mark) := by
  have htime : EndsSolid m.time.chars :=
    ((((endsSolid_of_digits m.time.second.ne_nil m.time.second.isDigit).cons ':').append _).cons ':').append _
  have hrest : EndsSolid (m.time.chars ++ m.ending) := by
    rw [ending]
    rcases m.hoffset with hz | hz
    · rcases m.hfraction with hf | hf
      · rwa [hz, hf, List.append_nil, List.append_nil]
      · rw [hz, List.append_nil]
        exact hf.endsSolid.append _
    · exact (hz.endsSolid.append _).append _
  exact (hrest.cons mark).append _

theorem trim_chars (mark : Char) : Text.trim (m.before ++ m.chars mark ++ m.after) = m.chars mark := by
  obtain ⟨first, rest, hyear, hfirst⟩ := m.day.year.exists_cons
  obtain ⟨last, hlast, hl⟩ := m.endsSolid_chars mark
  have hhead : (m.chars mark).head? = some first := by
    rw [chars, DayText.chars, hyear]
    rfl
  exact Text.trim_between m.hbefore m.hafter hhead hfirst hlast hl

theorem date?_written (mark : Char) : (m.written mark).date? =
    (layouts.findSome? fun layout => ofLayout? layout (m.chars mark)).map Timestamp.date := by
  rw [written, Json.date?, String.toList_ofList, Date.ofText?, m.trim_chars]

theorem internet_mark : ofLayout? internet (m.chars 'T') = ofLayout? internet (m.chars ' ') := by
  have hday : ∀ c ∈ m.day.chars, c ∉ marks := fun c hc => not_mem_marks hc
  rw [ofLayout?, ofLayout?, chars, chars, readItems?_internet_mark hday (by decide),
    readItems?_internet_mark hday (by decide)]

theorem internet_of_endsInFraction (h : m.EndsInFraction) (hmark : c ∈ marks) :
    ofLayout? internet (m.chars c) = none := by
  have hday : ∀ c ∈ m.day.chars, c ∉ marks := fun c hc => not_mem_marks hc
  refine ofLayout?_of_none ?_
  rw [chars, readItems?_internet_mark hday hmark]
  refine Option.bind_eq_none_iff.mpr fun p _ => ?_
  rw [readItems?_no_zone m.time (m.fractionText_ending.mpr h), ite_self]

theorem date?_joined_eq_spaced (h : ¬m.EndsInFraction) : (m.written 'T').date? = (m.written ' ').date? := by
  have hending : ¬FractionText m.ending := mt m.fractionText_ending.mp h
  have hmark := m.internet_mark
  rw [date?_written, date?_written]
  rw [chars, chars] at hmark ⊢
  rw [findSome?_joined m.day m.time m.endsNumber_ending, findSome?_spaced m.day m.time m.endsNumber_ending, hmark]
  simp only [hending, or_false]

theorem date?_joined_of_endsInFraction (h : m.EndsInFraction) : (m.written 'T').date? = none := by
  have hending : m.ending ≠ [] := by
    rw [ending]
    exact List.append_ne_nil_of_left_ne_nil h.1 m.offset
  have hnone := m.internet_of_endsInFraction h (c := 'T') (by decide)
  rw [date?_written]
  rw [chars] at hnone ⊢
  rw [findSome?_joined m.day m.time m.endsNumber_ending, hnone, if_neg (fun hvalid => hending hvalid.1)]
  rfl

theorem date?_spaced_of_endsInFraction (h : m.EndsInFraction) :
    (m.written ' ').date? = if m.IsValid then some m.day.date else none := by
  have hending : FractionText m.ending := m.fractionText_ending.mpr h
  have hnone := m.internet_of_endsInFraction h (c := ' ') (by decide)
  have hvalid : (m.time.on m.day).IsValid ↔ m.IsValid := Iff.rfl
  rw [date?_written]
  rw [chars] at hnone ⊢
  rw [findSome?_spaced m.day m.time m.endsNumber_ending, hnone]
  simp only [hending, or_true, true_and, hvalid, Option.none_or]
  split <;> rfl

theorem date?_eq_iff : (m.written 'T').date? = (m.written ' ').date? ↔ ¬(m.EndsInFraction ∧ m.IsValid) := by
  by_cases h : m.EndsInFraction
  · rw [m.date?_joined_of_endsInFraction h, m.date?_spaced_of_endsInFraction h]
    simp [h]
  · exact iff_of_true (m.date?_joined_eq_spaced h) (fun hboth => h hboth.1)

end MomentText

/-- Tests of a date and of a month look at no more of a column and of a value than its date. -/
theorem meets_congr_date {t t' : Tuple} {field : String} (h : (t'.resolve field).date? = (t.resolve field).date?)
    {v v' : Json} (hv : v'.date? = v.date?) (operator : String) :
    t'.meets (.date field operator v') = t.meets (.date field operator v) ∧
      ∀ month, t'.meets (.month field operator month) = t.meets (.month field operator month) := by
  simp only [Tuple.meets, h, hv, true_and, implies_true]

/-- It makes no difference to a text of a point in time whether a blank or a `T` stands between its day and its time,
nor to the tests of its day and its month, but for a text that ends in a fraction. There the blank gives the day, if
there is such a day and such a time, and the `T` gives none, so that it meets no test. -/
theorem separators_interchange (m : MomentText) :
    ((m.written 'T').date? = (m.written ' ').date? ↔ ¬(m.EndsInFraction ∧ m.IsValid)) ∧
    (m.EndsInFraction → (m.written 'T').date? = none ∧
      (m.written ' ').date? = if m.IsValid then some m.day.date else none) ∧
    (∀ (t t' : Tuple) (field : String), t.resolve field = m.written ' ' → t'.resolve field = m.written 'T' →
      ∀ operator v,
        (¬(m.EndsInFraction ∧ m.IsValid) → t'.meets (.date field operator v) = t.meets (.date field operator v) ∧
          t'.meets (.month field operator v) = t.meets (.month field operator v)) ∧
        (m.EndsInFraction → t'.meets (.date field operator v) = .ok false ∧
          t'.meets (.month field operator v) = .ok false)) ∧
    ∀ (t : Tuple) (field operator : String),
      (¬(m.EndsInFraction ∧ m.IsValid) →
        t.meets (.date field operator (m.written 'T')) = t.meets (.date field operator (m.written ' '))) ∧
      (m.EndsInFraction → t.meets (.date field operator (m.written 'T')) = .ok false) := by
  refine ⟨m.date?_eq_iff, fun h => ⟨m.date?_joined_of_endsInFraction h, m.date?_spaced_of_endsInFraction h⟩,
    fun t t' field hspaced hjoined operator v => ⟨fun h => ?_, fun h => ?_⟩,
    fun t field operator => ⟨fun h => ?_, fun h => ?_⟩⟩
  · have hdate : (t'.resolve field).date? = (t.resolve field).date? := by
      rw [hspaced, hjoined, m.date?_eq_iff.mpr h]
    obtain ⟨htest, hmonth⟩ := meets_congr_date hdate (Eq.refl v.date?) operator
    exact ⟨htest, hmonth v⟩
  · have hnone : (t'.resolve field).date? = none := by
      rw [hjoined, m.date?_joined_of_endsInFraction h]
    exact ⟨Tuple.meets_date_of_none (.inl hnone) operator, Tuple.meets_month_of_none hnone operator v⟩
  · exact (meets_congr_date (Eq.refl (t.resolve field).date?) (m.date?_eq_iff.mpr h) operator).1
  · exact Tuple.meets_date_of_none (.inr (m.date?_joined_of_endsInFraction h)) operator

/-- The middle of a March, at half past nine. -/
def midMarch : MomentText where
  day :=
    ⟨.plain ⟨['2', '0', '2', '4'], by decide, by decide, by simp⟩, ⟨['3'], by decide, by decide, by simp⟩,
      ⟨['1', '5'], by decide, by decide, by simp⟩⟩
  time :=
    ⟨⟨['9'], by decide, by decide, by simp⟩, ⟨['3', '0'], by decide, by decide, by simp⟩,
      ⟨['0', '0'], by decide, by decide, by simp⟩⟩

/-- The same moment and half a second. -/
def halfSecond : MomentText :=
  { midMarch with fraction := ['.', '5'], hfraction := .inr (.point (by decide) (by simp)) }

/-- The same moment in a year before the common era. -/
def idesOfMarch : MomentText :=
  { midMarch with
    day.year := .signed true ['4', '3'] (by decide) (by simp)
    before := [' ']
    hbefore := List.forall_mem_singleton.mpr rfl }

theorem separators_interchange_march :
    (Json.string "2024-3-15T9:30:00.5").date? = none ∧
    (Json.string "2024-3-15 9:30:00.5").date? = some ⟨2024, 3, 15⟩ ∧
    (Tuple.eventAt " -43-3-15T9:30:00").meets (.month "at" "=" (.string "3")) =
      (Tuple.eventAt " -43-3-15 9:30:00").meets (.month "at" "=" (.string "3")) ∧
    (Tuple.eventAt "2024-3-15T9:30:00.5").meets (.month "at" "=" (.string "3")) = .ok false := by
  have hvalid : halfSecond.IsValid := by decide
  have hends : halfSecond.EndsInFraction := by decide
  have hwhole : ¬(idesOfMarch.EndsInFraction ∧ idesOfMarch.IsValid) := by decide
  obtain ⟨-, hdates, hrows, -⟩ := separators_interchange halfSecond
  obtain ⟨-, -, hsame, -⟩ := separators_interchange idesOfMarch
  obtain ⟨hjoined, hspaced⟩ := hdates hends
  refine ⟨hjoined, hspaced.trans (if_pos hvalid), ?_, ?_⟩
  · exact ((hsame (Tuple.eventAt " -43-3-15 9:30:00") (Tuple.eventAt " -43-3-15T9:30:00") "at" (by decide)
      (by decide) "=" (.string "3")).1 hwhole).2
  · exact ((hrows (Tuple.eventAt "2024-3-15 9:30:00.5") (Tuple.eventAt "2024-3-15T9:30:00.5") "at" (by decide)
      (by decide) "=" (.string "3")).2 hends).2

/-- Half a second behind a time hides its day, if the time is joined to it. -/
theorem separators_differ : ¬∀ m : MomentText, m.IsValid → (m.written 'T').date? = (m.written ' ').date? := by
  intro hsame
  have hvalid : halfSecond.IsValid := by decide
  have hends : halfSecond.EndsInFraction := by decide
  exact halfSecond.date?_eq_iff.mp (hsame halfSecond hvalid) ⟨hends, hvalid⟩

end Timestamp

end RowQuery
