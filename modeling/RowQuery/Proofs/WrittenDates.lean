import RowQuery.Proofs.Digits
import RowQuery.Store.Evaluation
import Mathlib.Data.List.TakeWhile

namespace RowQuery

namespace Timestamp

/-- A text of the form `YYYY-MM-DD`. -/
structure DateText where
  year : Digits 4
  month : Digits 2
  day : Digits 2

/-- A text of the form `hh:mm:ss` for a time of a day, which may end in a leap second. -/
structure TimeText where
  hour : Digits 2
  minute : Digits 2
  second : Digits 2
  hour_le : hour.value ≤ 23
  minute_le : minute.value ≤ 59
  second_le : second.value ≤ 60

def DateText.chars (d : DateText) : List Char := d.year.chars ++ '-' :: (d.month.chars ++ '-' :: d.day.chars)

def DateText.text (d : DateText) : String := .ofList d.chars

def DateText.date (d : DateText) : Date := ⟨d.year.value, d.month.value, d.day.value⟩

/-- The calendar has the day that is written. -/
def DateText.IsReal (d : DateText) : Prop :=
  1 ≤ d.month.value ∧ d.month.value ≤ 12 ∧ 1 ≤ d.day.value ∧
    d.day.value ≤ Date.daysInMonth d.year.value d.month.value

instance (d : DateText) : Decidable d.IsReal := inferInstanceAs (Decidable (_ ∧ _))

def TimeText.chars (t : TimeText) : List Char := t.hour.chars ++ ':' :: (t.minute.chars ++ ':' :: t.second.chars)

inductive FractionText : List Char → Prop
  | point {digits} (hne : digits ≠ []) (hdigits : ∀ c ∈ digits, c.isDigit = true) : FractionText ('.' :: digits)

/-- An offset from universal time of less than a day. -/
inductive ZoneText : List Char → Prop
  | universal {c} (hc : c = 'Z' ∨ c = 'z') : ZoneText [c]
  | offset {sign} (hsign : sign = '+' ∨ sign = '-') (hours minutes : Digits 2) (hhours : hours.value < 24)
      (hminutes : minutes.value < 60) : ZoneText (sign :: (hours.chars ++ ':' :: minutes.chars))

/-- The texts of a day, alone or with a time behind it. Only after one of three marks can an offset stand behind the
time, and only after a blank a fraction without an offset. -/
inductive DateText.WrittenAs (d : DateText) : List Char → Prop
  | date : d.WrittenAs d.chars
  | spaced (time : TimeText) : d.WrittenAs (d.chars ++ ' ' :: time.chars)
  | joined (time : TimeText) : d.WrittenAs (d.chars ++ 'T' :: time.chars)
  | fractional (time : TimeText) {f} (hf : FractionText f) : d.WrittenAs (d.chars ++ ' ' :: (time.chars ++ f))
  | zoned (time : TimeText) {mark f z} (hmark : mark ∈ ['T', 't', ' ']) (hf : f = [] ∨ FractionText f)
      (hz : ZoneText z) : d.WrittenAs (d.chars ++ mark :: (time.chars ++ (f ++ z)))

variable {n : Nat} {rest s : List Char} {t t' : Timestamp}

theorem readNumber?_digits {least : Nat} (d : Digits n) (h : least ≤ n) (rest : List Char) :
    readNumber? least n (d.chars ++ rest) = some (d.value, rest) := by
  have hdigits : leadingDigits n (d.chars ++ rest) = d.chars := by
    rw [leadingDigits, List.take_left' d.length_chars, List.takeWhile_eq_self_iff]
    exact d.isDigit
  rw [readNumber?, hdigits, d.length_chars, if_neg (Nat.not_lt.mpr h), List.drop_left' d.length_chars]
  rfl

theorem readLoose?_digit {c : Char} (h : c.isDigit = true) (f : Field) (s : List Char) :
    readLoose? f (c :: s) = (readNumber? 1 f.width (c :: s)).map fun (n, s) => (n, s) := by
  have hfirst : Text.trimStart (c :: s) = c :: s :=
    Text.trimStart_eq_self (by simpa using isBlank_of_isDigit h)
  unfold readLoose?
  rw [hfirst]
  split
  · rename_i hcons
    exact absurd (List.cons.inj hcons).1 (ne_of_isDigit h (by decide))
  · rename_i hcons
    exact absurd (List.cons.inj hcons).1 (ne_of_isDigit h (by decide))
  · rfl

/-- Whether an item reads digits of its full width as their number. -/
def Reads (number : Field → Item) : Prop :=
  ∀ (f : Field) (d : Digits f.width) (t : Timestamp) (rest : List Char),
    (number f).read? t (d.chars ++ rest) = some (f.put d.value t, rest)

theorem reads_exact : Reads .exact := by
  intro f d t rest
  rw [Item.read?, readNumber?_digits d (Nat.le_refl _)]
  rfl

theorem reads_loose : Reads .loose := by
  intro f d t rest
  have hwidth : 1 ≤ f.width := by cases f <;> decide
  obtain ⟨c, digits, hchars, hc⟩ := d.exists_cons hwidth
  have hread := readNumber?_digits d hwidth rest
  rw [hchars, List.cons_append] at hread ⊢
  rw [Item.read?, readLoose?_digit hc, hread]
  rfl

def dateItems (number : Field → Item) : List Item :=
  [number .year, .mark ['-'], number .month, .mark ['-'], number .day]

def timeItems (number : Field → Item) : List Item :=
  [number .hour, .mark [':'], number .minute, .mark [':'], number .second]

theorem read?_mark {choices : List Char} {c : Char} (h : c ∈ choices) (t : Timestamp) (s : List Char) :
    (Item.mark choices).read? t (c :: s) = some (t, s) := if_pos h

theorem readItems?_cons {item : Item} {items : List Item} (h : item.read? t s = some (t', rest)) :
    readItems? (item :: items) t s = readItems? items t' rest := by
  rw [readItems?, h]
  rfl

theorem readItems?_dateItems {number : Field → Item} (h : Reads number) (d : DateText) (items : List Item)
    (t : Timestamp) (rest : List Char) : readItems? (dateItems number ++ items) t (d.chars ++ rest) =
      readItems? items { t with year := d.year.value, month := d.month.value, day := d.day.value } rest := by
  simp only [dateItems, DateText.chars, List.cons_append, List.nil_append, List.append_assoc]
  rw [readItems?_cons (h .year d.year _ _), readItems?_cons (read?_mark (by decide) _ _),
    readItems?_cons (h .month d.month _ _), readItems?_cons (read?_mark (by decide) _ _),
    readItems?_cons (h .day d.day _ _)]
  rfl

theorem readItems?_timeItems {number : Field → Item} (h : Reads number) (time : TimeText) (items : List Item)
    (t : Timestamp) (rest : List Char) : readItems? (timeItems number ++ items) t (time.chars ++ rest) =
      readItems? items { t with hour := time.hour.value, minute := time.minute.value, second := time.second.value }
        rest := by
  simp only [timeItems, TimeText.chars, List.cons_append, List.nil_append, List.append_assoc]
  rw [readItems?_cons (h .hour time.hour _ _), readItems?_cons (read?_mark (by decide) _ _),
    readItems?_cons (h .minute time.minute _ _), readItems?_cons (read?_mark (by decide) _ _),
    readItems?_cons (h .second time.second _ _)]
  rfl

/-- Whether an item reads a part of the date. -/
def Item.isOfDate : Item → Bool
  | .exact f | .loose f => f ∈ [Field.year, Field.month, Field.day]
  | _ => false

theorem date_put {f : Field} (h : f ∉ [Field.year, Field.month, Field.day]) (n : Int) (t : Timestamp) :
    (f.put n t).date = t.date := by
  cases f with
  | year | month | day => simp at h
  | hour | minute | second => rfl

theorem date_of_read? {item : Item} (hitem : item.isOfDate = false) (h : item.read? t s = some (t', rest)) :
    t'.date = t.date := by
  cases item with
  | exact f | loose f =>
      obtain ⟨⟨n, _⟩, -, hr⟩ := Option.map_eq_some_iff.mp h
      cases hr
      exact date_put (of_decide_eq_false hitem) n t
  | mark choices =>
      cases s with
      | nil => cases h
      | cons c s =>
          obtain ⟨-, hr⟩ := Option.ite_none_right_eq_some.mp h
          cases hr
          rfl
  | gap =>
      cases h
      rfl
  | fraction | zone =>
      obtain ⟨_, -, hr⟩ := Option.map_eq_some_iff.mp h
      cases hr
      rfl

theorem date_of_readItems? {items : List Item} (hitems : ∀ item ∈ items, item.isOfDate = false)
    (h : readItems? items t s = some (t', rest)) : t'.date = t.date := by
  induction items generalizing t s with
  | nil =>
      cases h
      rfl
  | cons item items ih =>
      obtain ⟨⟨u, s'⟩, hread, hrest⟩ := Option.bind_eq_some_iff.mp h
      rw [ih (fun i hi => hitems i (List.mem_cons_of_mem item hi)) hrest,
        date_of_read? (hitems item List.mem_cons_self) hread]

/-- Every layout begins with the date, and reads no part of it a second time. -/
theorem layouts_shape : ∀ layout ∈ layouts, ∃ number items, Reads number ∧
    (∀ item ∈ items, item.isOfDate = false) ∧ layout = dateItems number ++ items := by
  intro layout hlayout
  simp only [layouts, List.mem_cons, List.not_mem_nil, or_false] at hlayout
  rcases hlayout with rfl | rfl | rfl | rfl | rfl
  · exact ⟨.exact, .mark ['T', 't', ' '] :: exactTime ++ [.fraction, .zone], reads_exact, by decide, rfl⟩
  · exact ⟨.loose, .gap :: looseTime, reads_loose, by decide, rfl⟩
  · exact ⟨.loose, .mark ['T'] :: looseTime, reads_loose, by decide, rfl⟩
  · exact ⟨.loose, .gap :: looseTime ++ [.fraction], reads_loose, by decide, rfl⟩
  · exact ⟨.loose, [], reads_loose, by decide, rfl⟩

/-- Whatever layout fits a text that begins with a date, it finds that date, and the calendar has it. -/
theorem date_of_ofLayout? {layout : List Item} (hlayout : layout ∈ layouts) {d : DateText}
    (h : ofLayout? layout (d.chars ++ rest) = some t) : t.date = d.date ∧ d.date.IsValid := by
  obtain ⟨number, items, hnumber, hitems, rfl⟩ := layouts_shape layout hlayout
  rw [ofLayout?, readItems?_dateItems hnumber] at h
  split at h
  · rename_i u hread
    obtain ⟨hvalid, hu⟩ := Option.ite_none_right_eq_some.mp h
    cases hu
    have hdate : t.date = d.date := date_of_readItems? hitems hread
    exact ⟨hdate, hdate ▸ hvalid.1⟩
  · cases h

theorem ofText?_of_chars {d : DateText} (htrim : Text.trim s = d.chars ++ rest)
    (hfits : d.date.IsValid → ∃ layout ∈ layouts, ∃ t, ofLayout? layout (d.chars ++ rest) = some t) :
    Date.ofText? s = if d.date.IsValid then some d.date else none := by
  rw [Date.ofText?, htrim]
  split
  · rename_i hvalid
    obtain ⟨layout, hlayout, t, ht⟩ := hfits hvalid
    cases hfind : layouts.findSome? fun layout => ofLayout? layout (d.chars ++ rest) with
    | none => exact absurd ht (by simp [List.findSome?_eq_none_iff.mp hfind layout hlayout])
    | some u =>
        obtain ⟨first, hfirst, hu⟩ := List.exists_of_findSome?_eq_some hfind
        exact congrArg some (date_of_ofLayout? hfirst hu).1
  · rename_i hvalid
    rw [Option.map_eq_none_iff, List.findSome?_eq_none_iff]
    intro layout hlayout
    rw [Option.eq_none_iff_forall_not_mem]
    exact fun t ht => hvalid (date_of_ofLayout? hlayout ht).2

theorem trimStart_digits (d : Digits n) (h : 0 < n) (rest : List Char) :
    Text.trimStart (d.chars ++ rest) = d.chars ++ rest := by
  obtain ⟨c, digits, hchars, hc⟩ := d.exists_cons h
  rw [hchars, List.cons_append]
  exact Text.trimStart_eq_self (by simpa using isBlank_of_isDigit hc)

theorem read?_gap (time : TimeText) (t : Timestamp) (rest : List Char) :
    Item.gap.read? t (' ' :: (time.chars ++ rest)) = some (t, time.chars ++ rest) := by
  have htrim : Text.trimStart (time.chars ++ rest) = time.chars ++ rest := by
    rw [TimeText.chars, List.append_assoc]
    exact trimStart_digits time.hour (by decide) _
  show some (t, Text.trimStart (time.chars ++ rest)) = _
  rw [htrim]

/-- What can stand behind a fraction: a text that begins neither with a digit nor with a point. -/
def Stops (s : List Char) : Prop := ∀ c ∈ s.head?, c.isDigit = false ∧ c ≠ '.'

theorem dropWhile_digits (hs : ∀ c ∈ s, c.isDigit = true) (hrest : Stops rest) :
    (s ++ rest).dropWhile Char.isDigit = rest := by
  rw [List.dropWhile_append_of_pos hs]
  cases rest with
  | nil => rfl
  | cons c rest => exact List.dropWhile_cons_of_neg (by simp [(hrest c rfl).1])

theorem readFraction?_append {f : List Char} (hf : f = [] ∨ FractionText f) (hrest : Stops rest) :
    readFraction? (f ++ rest) = some rest := by
  rcases hf with rfl | ⟨hne, hdigits⟩
  · unfold readFraction?
    split
    · rename_i s hs
      exact absurd rfl (hrest '.' (by simp [show rest = '.' :: s from hs])).2
    · rfl
  · rename_i digits
    have hleading : leadingDigits 1 (digits ++ rest) ≠ [] := by
      obtain ⟨c, tail, rfl⟩ := List.exists_cons_of_ne_nil hne
      simp [leadingDigits, hdigits c List.mem_cons_self]
    show (if (leadingDigits 1 (digits ++ rest)).isEmpty then none
      else some ((digits ++ rest).dropWhile Char.isDigit)) = _
    rw [if_neg (by simpa using hleading), dropWhile_digits hdigits hrest]

theorem readZone?_zoneText {z : List Char} (hz : ZoneText z) : readZone? z = some [] := by
  cases hz with
  | universal hc => exact if_pos hc
  | offset hsign hours minutes hhours hminutes =>
      have hread := readNumber?_digits minutes (Nat.le_refl 2) []
      rw [List.append_nil] at hread
      rcases hsign with rfl | rfl
      · simp [readZone?, readNumber?_digits hours (Nat.le_refl 2), hread, hhours, hminutes]
      · simp [readZone?, readNumber?_digits hours (Nat.le_refl 2), hread, hhours, hminutes]

theorem stops_zoneText {z : List Char} (hz : ZoneText z) : Stops z := by
  intro c hc
  cases hz with
  | universal h =>
      obtain rfl := Option.some.inj hc
      rcases h with rfl | rfl <;> decide
  | offset h =>
      obtain rfl := Option.some.inj hc
      rcases h with rfl | rfl <;> decide

theorem ofLayout?_of_read {layout : List Item} (h : readItems? layout {} s = some (t, [])) (hvalid : t.IsValid) :
    ofLayout? layout s = some t := by
  rw [ofLayout?, h]
  exact if_pos hvalid

/-- A day and a time of it, as they are written. -/
def TimeText.on (time : TimeText) (d : DateText) : Timestamp :=
  ⟨d.year.value, d.month.value, d.day.value, time.hour.value, time.minute.value, time.second.value⟩

theorem TimeText.isValid_on (time : TimeText) {d : DateText} (h : d.date.IsValid) : (time.on d).IsValid :=
  ⟨h, time.hour_le, time.minute_le, time.second_le⟩

/-- A layout of a date and a time fits what is written if its separator fits and its last items fit what stands behind
the time. -/
theorem ofLayout?_on {number : Field → Item} {separator : Item} {items : List Item} {mark : Char} {tail : List Char}
    (hnumber : Reads number) (time : TimeText) {d : DateText} (hvalid : d.date.IsValid)
    (hmark : ∀ t, separator.read? t (mark :: (time.chars ++ tail)) = some (t, time.chars ++ tail))
    (htail : ∀ t, readItems? items t tail = some (t, [])) :
    ofLayout? (dateItems number ++ separator :: (timeItems number ++ items)) (d.chars ++ mark :: (time.chars ++ tail)) =
      some (time.on d) := by
  refine ofLayout?_of_read ?_ (time.isValid_on hvalid)
  rw [readItems?_dateItems hnumber, readItems?_cons (hmark _), readItems?_timeItems hnumber, htail]
  rfl

theorem readItems?_fraction {f : List Char} (hf : FractionText f) (t : Timestamp) :
    readItems? [.fraction] t f = some (t, []) := by
  have hstops : Stops [] := by simp [Stops]
  have hread := readFraction?_append (.inr hf) hstops
  rw [List.append_nil] at hread
  simp [readItems?, Item.read?, hread]

theorem readItems?_zone {f z : List Char} (hf : f = [] ∨ FractionText f) (hz : ZoneText z) (t : Timestamp) :
    readItems? [.fraction, .zone] t (f ++ z) = some (t, []) := by
  simp [readItems?, Item.read?, readFraction?_append hf (stops_zoneText hz), readZone?_zoneText hz]

theorem exists_layout {d : DateText} (hs : d.WrittenAs s) (hvalid : d.date.IsValid) :
    ∃ layout ∈ layouts, ∃ t, ofLayout? layout s = some t := by
  cases hs with
  | date =>
      have hread : readItems? looseDate {} d.chars =
          some (⟨d.year.value, d.month.value, d.day.value, 0, 0, 0⟩, []) := by
        rw [← List.append_nil d.chars]
        exact readItems?_dateItems reads_loose d [] {} []
      have hmidnight : (⟨d.year.value, d.month.value, d.day.value, 0, 0, 0⟩ : Timestamp).IsValid :=
        ⟨hvalid, Nat.zero_le 23, Nat.zero_le 59, Nat.zero_le 60⟩
      exact ⟨looseDate, by simp [layouts], _, ofLayout?_of_read hread hmidnight⟩
  | spaced time =>
      rw [← List.append_nil time.chars]
      exact ⟨looseDate ++ .gap :: looseTime, by simp [layouts], _,
        ofLayout?_on reads_loose time hvalid (fun t => read?_gap time t []) fun _ => rfl⟩
  | joined time =>
      rw [← List.append_nil time.chars]
      exact ⟨looseDate ++ .mark ['T'] :: looseTime, by simp [layouts], _,
        ofLayout?_on reads_loose time hvalid (fun t => read?_mark (by decide) t _) fun _ => rfl⟩
  | fractional time hf =>
      exact ⟨looseDate ++ .gap :: looseTime ++ [.fraction], by simp [layouts], _,
        ofLayout?_on reads_loose time hvalid (fun t => read?_gap time t _) (readItems?_fraction hf)⟩
  | zoned time hmark hf hz =>
      exact ⟨internet, by simp [layouts], _,
        ofLayout?_on reads_exact time hvalid (fun t => read?_mark hmark t _) (readItems?_zone hf hz)⟩

/-- A text whose last character is not blank. -/
def EndsSolid (s : List Char) : Prop := ∃ c, s.getLast? = some c ∧ Text.isBlank c = false

theorem EndsSolid.append (h : EndsSolid s) (front : List Char) : EndsSolid (front ++ s) := by
  obtain ⟨c, hlast, hc⟩ := h
  exact ⟨c, by rw [List.getLast?_append, hlast, Option.some_or], hc⟩

theorem endsSolid_of_digits (hne : s ≠ []) (h : ∀ c ∈ s, c.isDigit = true) : EndsSolid s :=
  ⟨s.getLast hne, List.getLast?_eq_some_getLast hne, isBlank_of_isDigit (h _ (List.getLast_mem hne))⟩

theorem endsSolid_digits (d : Digits n) (h : 0 < n) : EndsSolid d.chars := by
  obtain ⟨c, rest, hchars, -⟩ := d.exists_cons h
  exact endsSolid_of_digits (by simp [hchars]) d.isDigit

theorem EndsSolid.cons (h : EndsSolid s) (c : Char) : EndsSolid (c :: s) := h.append [c]

theorem TimeText.endsSolid (time : TimeText) : EndsSolid time.chars :=
  ((((endsSolid_digits time.second (by decide)).cons ':').append time.minute.chars).cons ':').append _

theorem FractionText.endsSolid {f : List Char} (h : FractionText f) : EndsSolid f := by
  cases h with
  | point hne hdigits => exact (endsSolid_of_digits hne hdigits).cons '.'

theorem ZoneText.endsSolid {z : List Char} (h : ZoneText z) : EndsSolid z := by
  cases h with
  | universal hc => rcases hc with rfl | rfl <;> exact ⟨_, rfl, by decide⟩
  | offset _ hours minutes =>
      exact (((endsSolid_digits minutes (by decide)).cons ':').append hours.chars).cons _

theorem DateText.endsSolid (d : DateText) : EndsSolid d.chars :=
  ((((endsSolid_digits d.day (by decide)).cons '-').append d.month.chars).cons '-').append _

theorem DateText.WrittenAs.endsSolid {d : DateText} (h : d.WrittenAs s) : EndsSolid s := by
  cases h with
  | date => exact d.endsSolid
  | spaced time | joined time => exact (time.endsSolid.cons _).append _
  | fractional time hf => exact ((hf.endsSolid.append time.chars).cons _).append _
  | zoned time _ _ hz => exact (((hz.endsSolid.append _).append time.chars).cons _).append _

theorem DateText.WrittenAs.exists_chars {d : DateText} (h : d.WrittenAs s) : ∃ rest, s = d.chars ++ rest := by
  cases h with
  | date => exact ⟨[], (List.append_nil _).symm⟩
  | spaced | joined | fractional | zoned => exact ⟨_, rfl⟩

theorem trim_writtenAs {d : DateText} (h : d.WrittenAs s) {before after : List Char}
    (hbefore : ∀ c ∈ before, Text.isBlank c = true) (hafter : ∀ c ∈ after, Text.isBlank c = true) :
    Text.trim (before ++ s ++ after) = s := by
  obtain ⟨rest, hrest⟩ := h.exists_chars
  obtain ⟨first, digits, hyear, hfirst⟩ := d.year.exists_cons (by decide)
  obtain ⟨last, hlast, hl⟩ := h.endsSolid
  have hhead : s.head? = some first := by
    rw [hrest, DateText.chars, hyear]
    rfl
  exact Text.trim_between hbefore hafter hhead (isBlank_of_isDigit hfirst) hlast hl

theorem DateText.isValid_date (d : DateText) : d.date.IsValid ↔ d.IsReal := by
  have hyear := d.year.value_lt
  have hcovered : Date.firstYear ≤ d.date.year ∧ d.date.year ≤ Date.lastYear := by
    simp only [DateText.date, Date.firstYear, Date.lastYear]
    omega
  exact ⟨fun h => h.2.2, fun h => ⟨hcovered.1, hcovered.2, h⟩⟩

theorem compare_cast (a b : Nat) : compare (a : Int) (b : Int) = compare a b := by
  have hmono : StrictMono fun n : Nat => (n : Int) := fun _ _ h => Int.ofNat_lt.mpr h
  rw [← cmp_eq_compare, ← cmp_eq_compare]
  exact hmono.cmp_map_eq a b

/-- The order of days is the order of their texts. -/
theorem DateText.order_date (d e : DateText) : d.date.order e.date = compare d.text e.text := by
  have hlength : ∀ {n : Nat} (a b : Digits n), a.chars.length = b.chars.length := fun a b =>
    a.length_chars.trans b.length_chars.symm
  rw [DateText.text, DateText.text, compare_ofList, DateText.chars, DateText.chars, compare_append (hlength _ _),
    List.compare_cons_cons, compare_append (hlength _ _), List.compare_cons_cons, Digits.compare_chars,
    Digits.compare_chars, Digits.compare_chars]
  simp only [Date.order, DateText.date, compare_cast]
  rfl

/-- A value is the text of a day, alone or with a time behind it, and with any blanks around it. -/
def DateText.WrittenIn (d : DateText) (a : Json) : Prop :=
  ∃ before s after, d.WrittenAs s ∧ (∀ c ∈ before, Text.isBlank c = true) ∧ (∀ c ∈ after, Text.isBlank c = true) ∧
    a = .string (.ofList (before ++ s ++ after))

theorem date?_writtenIn {d : DateText} {a : Json} (h : d.WrittenIn a) :
    a.date? = if d.IsReal then some d.date else none := by
  obtain ⟨before, s, after, hs, hbefore, hafter, rfl⟩ := h
  have htrim := trim_writtenAs hs hbefore hafter
  obtain ⟨rest, hrest⟩ := hs.exists_chars
  rw [Json.date?, String.toList_ofList, ofText?_of_chars (htrim.trans hrest) fun hvalid => ?_]
  · simp only [d.isValid_date]
  · exact hrest ▸ exists_layout hs hvalid

end Timestamp

end RowQuery
