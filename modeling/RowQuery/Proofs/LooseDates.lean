import RowQuery.Proofs.WrittenDates

namespace RowQuery

namespace Timestamp

/-- The digits of a number that has room for a given count of them. -/
structure NumberText (most : Nat) where
  chars : List Char
  ne_nil : chars ≠ []
  length_le : chars.length ≤ most
  isDigit : ∀ c ∈ chars, c.isDigit = true

/-- A year of up to four digits, or of any number of digits behind a sign. -/
inductive YearText
  | plain (number : NumberText 4)
  | signed (negative : Bool) (digits : List Char) (hne : digits ≠ []) (hdigits : ∀ c ∈ digits, c.isDigit = true)

/-- A text of a day, which may be written with fewer digits than `YYYY-MM-DD`. -/
structure DayText where
  year : YearText
  month : NumberText 2
  day : NumberText 2

/-- A text of a time, which may be written with fewer digits than `hh:mm:ss`. -/
structure ClockText where
  hour : NumberText 2
  minute : NumberText 2
  second : NumberText 2

def NumberText.value {most : Nat} (n : NumberText most) : Nat := digitsValue n.chars

namespace YearText

def chars : YearText → List Char
  | plain number => number.chars
  | signed negative digits _ _ => (if negative then '-' else '+') :: digits

def value : YearText → Int
  | plain number => number.value
  | signed negative digits _ _ => if negative then -digitsValue digits else digitsValue digits

end YearText

def DayText.chars (d : DayText) : List Char := d.year.chars ++ '-' :: (d.month.chars ++ '-' :: d.day.chars)

def DayText.date (d : DayText) : Date := ⟨d.year.value, d.month.value, d.day.value⟩

def ClockText.chars (c : ClockText) : List Char :=
  c.hour.chars ++ ':' :: (c.minute.chars ++ ':' :: c.second.chars)

/-- The day has such a time, which may be a leap second. -/
def ClockText.IsValid (c : ClockText) : Prop := c.hour.value ≤ 23 ∧ c.minute.value ≤ 59 ∧ c.second.value ≤ 60

instance (c : ClockText) : Decidable c.IsValid := inferInstanceAs (Decidable (_ ∧ _))

variable {s r : List Char} {t t' : Timestamp} {c : Char}

/-- A text in front of which a number ends. -/
def EndsNumber (s : List Char) : Prop := ∀ c ∈ s.head?, c.isDigit = false

theorem endsNumber_cons (h : c.isDigit = false) (s : List Char) : EndsNumber (c :: s) := by
  intro d hd
  obtain rfl := Option.some.inj hd
  exact h

theorem Stops.endsNumber (h : Stops s) : EndsNumber s := fun c hc => (h c hc).1

theorem takeWhile_take_of_endsNumber (h : EndsNumber s) (n : Nat) : (s.take n).takeWhile Char.isDigit = [] := by
  cases s with
  | nil => simp
  | cons c s =>
      cases n with
      | zero => rfl
      | succ n => exact List.takeWhile_cons_of_neg (by simp [h c rfl])

theorem leadingDigits_append {digits : List Char} (hdigits : ∀ c ∈ digits, c.isDigit = true) {most : Nat}
    (hmost : digits.length ≤ most) (hr : EndsNumber r) : leadingDigits most (digits ++ r) = digits := by
  rw [leadingDigits, List.take_append, List.take_of_length_le hmost, List.takeWhile_append_of_pos hdigits,
    takeWhile_take_of_endsNumber hr, List.append_nil]

theorem readNumber?_append {digits : List Char} (hne : digits ≠ []) (hdigits : ∀ c ∈ digits, c.isDigit = true)
    {most : Nat} (hmost : digits.length ≤ most) (hr : EndsNumber r) :
    readNumber? 1 most (digits ++ r) = some (digitsValue digits, r) := by
  have hlength : 0 < digits.length := List.length_pos_iff.mpr hne
  rw [readNumber?, leadingDigits_append hdigits hmost hr, if_neg (by omega), List.drop_left]

theorem read?_loose (f : Field) (n : NumberText f.width) (hr : EndsNumber r) :
    (Item.loose f).read? t (n.chars ++ r) = some (f.put n.value t, r) := by
  obtain ⟨d, digits, hchars⟩ := List.exists_cons_of_ne_nil n.ne_nil
  have hread := readNumber?_append n.ne_nil n.isDigit n.length_le hr
  have hd : d.isDigit = true := n.isDigit d (by simp [hchars])
  rw [NumberText.value, hchars, List.cons_append] at *
  rw [Item.read?, readLoose?_digit hd, hread]
  rfl

theorem read?_signed {sign : Char} (hsign : sign = '-' ∨ sign = '+') {digits : List Char} (hne : digits ≠ [])
    (hdigits : ∀ c ∈ digits, c.isDigit = true) (hr : EndsNumber r) :
    (Item.loose .year).read? t (sign :: (digits ++ r)) =
      some (Field.put .year (if sign = '-' then -(digitsValue digits : Int) else digitsValue digits) t, r) := by
  have hread := readNumber?_append hne hdigits (Nat.le_add_right digits.length r.length) hr
  have htrim : Text.trimStart (sign :: (digits ++ r)) = sign :: (digits ++ r) :=
    Text.trimStart_eq_self (by rcases hsign with rfl | rfl <;> simp [Text.isBlank])
  rcases hsign with rfl | rfl
  · simp [Item.read?, readLoose?, htrim, hread]
  · simp [Item.read?, readLoose?, htrim, hread]

theorem read?_year (y : YearText) (hr : EndsNumber r) :
    (Item.loose .year).read? t (y.chars ++ r) = some ({ t with year := y.value }, r) := by
  cases y with
  | plain number => exact read?_loose .year number hr
  | signed negative digits hne hdigits =>
      cases negative with
      | true => exact read?_signed (.inl rfl) hne hdigits hr
      | false => exact read?_signed (.inr rfl) hne hdigits hr

theorem readItems?_looseDate (d : DayText) (items : List Item) (t : Timestamp) (hr : EndsNumber r) :
    readItems? (looseDate ++ items) t (d.chars ++ r) =
      readItems? items { t with year := d.year.value, month := d.month.value, day := d.day.value } r := by
  simp only [looseDate, DayText.chars, List.cons_append, List.nil_append, List.append_assoc]
  rw [readItems?_cons (read?_year d.year (endsNumber_cons rfl _)), readItems?_cons (read?_mark (by decide) _ _),
    readItems?_cons (read?_loose .month d.month (endsNumber_cons rfl _)), readItems?_cons (read?_mark (by decide) _ _),
    readItems?_cons (read?_loose .day d.day hr)]
  rfl

theorem readItems?_looseTime (time : ClockText) (items : List Item) (t : Timestamp) (hr : EndsNumber r) :
    readItems? (looseTime ++ items) t (time.chars ++ r) =
      readItems? items { t with hour := time.hour.value, minute := time.minute.value, second := time.second.value }
        r := by
  simp only [looseTime, ClockText.chars, List.cons_append, List.nil_append, List.append_assoc]
  rw [readItems?_cons (read?_loose .hour time.hour (endsNumber_cons rfl _)),
    readItems?_cons (read?_mark (by decide) _ _),
    readItems?_cons (read?_loose .minute time.minute (endsNumber_cons rfl _)),
    readItems?_cons (read?_mark (by decide) _ _), readItems?_cons (read?_loose .second time.second hr)]
  rfl

/-- An item that reads no further if a text is continued. -/
def Item.StopsBefore (item : Item) (c : Char) : Prop :=
  match item with
  | .exact _ => c.isDigit = false
  | .mark choices => c ∉ choices
  | _ => False

theorem leadingDigits_of_not_digit (hc : c.isDigit = false) (n : Nat) (s r : List Char) :
    leadingDigits n (s ++ c :: r) = leadingDigits n s := by
  induction s generalizing n with
  | nil =>
      have hnone : leadingDigits n [] = [] := by simp [leadingDigits]
      exact (takeWhile_take_of_endsNumber (endsNumber_cons hc r) n).trans hnone.symm
  | cons d s ih =>
      cases n with
      | zero => rfl
      | succ n =>
          show ((d :: (s ++ c :: r).take n).takeWhile Char.isDigit) = (d :: s.take n).takeWhile Char.isDigit
          rw [List.takeWhile_cons, List.takeWhile_cons]
          exact if_congr Iff.rfl (congrArg (d :: ·) (ih n)) rfl

theorem length_leadingDigits_le (n : Nat) (s : List Char) : (leadingDigits n s).length ≤ s.length :=
  ((List.takeWhile_prefix _).trans (List.take_prefix n s)).length_le

theorem readNumber?_of_not_digit (hc : c.isDigit = false) (least most : Nat) (s r : List Char) :
    readNumber? least most (s ++ c :: r) = (readNumber? least most s).map fun p => (p.1, p.2 ++ c :: r) := by
  rw [readNumber?, readNumber?, leadingDigits_of_not_digit hc,
    List.drop_append_of_le_length (length_leadingDigits_le most s)]
  split
  · rfl
  · rfl

theorem read?_append {item : Item} (h : item.StopsBefore c) (t : Timestamp) (s r : List Char) :
    item.read? t (s ++ c :: r) = (item.read? t s).map fun p => (p.1, p.2 ++ c :: r) := by
  cases item with
  | exact f =>
      rw [Item.read?, Item.read?, readNumber?_of_not_digit h, Option.map_map, Option.map_map]
      rfl
  | mark choices =>
      cases s with
      | nil => exact if_neg h
      | cons d s =>
          show (if d ∈ choices then some (t, s ++ c :: r) else none) =
            Option.map _ (if d ∈ choices then some (t, s) else none)
          split <;> rfl
  | loose | gap | fraction | zone => exact h.elim

theorem readItems?_append {items : List Item} (h : ∀ item ∈ items, item.StopsBefore c) (t : Timestamp)
    (s r : List Char) :
    readItems? items t (s ++ c :: r) = (readItems? items t s).map fun p => (p.1, p.2 ++ c :: r) := by
  induction items generalizing t s with
  | nil => rfl
  | cons item items ih =>
      rw [readItems?, readItems?, read?_append (h item List.mem_cons_self)]
      cases item.read? t s with
      | none => rfl
      | some p => exact ih (fun i hi => h i (List.mem_cons_of_mem item hi)) p.1 p.2

theorem readItems?_append_items (early late : List Item) (t : Timestamp) (s : List Char) :
    readItems? (early ++ late) t s = (readItems? early t s).bind fun p => readItems? late p.1 p.2 := by
  induction early generalizing t s with
  | nil => rfl
  | cons item early ih =>
      rw [List.cons_append, readItems?, readItems?]
      cases item.read? t s with
      | none => rfl
      | some p => exact ih p.1 p.2

theorem read?_suffix {item : Item} (hitem : item.StopsBefore c) (h : item.read? t s = some (t', r)) : r <:+ s := by
  cases item with
  | exact f =>
      obtain ⟨⟨n, rest⟩, hread, hr⟩ := Option.map_eq_some_iff.mp h
      obtain ⟨-, rfl⟩ := Prod.mk.inj hr
      obtain ⟨-, hdrop⟩ := Option.ite_none_left_eq_some.mp hread
      rw [← (Prod.mk.inj (Option.some.inj hdrop)).2]
      exact List.drop_suffix _ _
  | mark choices =>
      cases s with
      | nil => cases h
      | cons d _ =>
          obtain ⟨-, hs⟩ := Option.ite_none_right_eq_some.mp h
          rw [← (Prod.mk.inj (Option.some.inj hs)).2]
          exact List.suffix_cons d _
  | loose | gap | fraction | zone => exact hitem.elim

theorem readItems?_suffix {items : List Item} (hitems : ∀ item ∈ items, item.StopsBefore c)
    (h : readItems? items t s = some (t', r)) : r <:+ s := by
  induction items generalizing t s with
  | nil =>
      cases h
      exact List.suffix_refl _
  | cons item items ih =>
      obtain ⟨⟨u, s'⟩, hread, hrest⟩ := Option.bind_eq_some_iff.mp h
      exact (ih (fun i hi => hitems i (List.mem_cons_of_mem item hi)) hrest).trans
        (read?_suffix (hitems item List.mem_cons_self) hread)

/-- The marks that can stand between a day and a time in front of an offset. -/
def marks : List Char := ['T', 't', ' ']

theorem exactDate_stopsBefore (hc : c ∈ marks) : ∀ item ∈ exactDate, item.StopsBefore c := by
  simp only [marks, List.mem_cons, List.not_mem_nil, or_false] at hc
  have hdigit : c.isDigit = false := by
    rcases hc with rfl | rfl | rfl <;> rfl
  have hdash : c ∉ ['-'] := by
    rcases hc with rfl | rfl | rfl <;> decide
  simp only [exactDate, List.forall_mem_cons, Item.StopsBefore]
  exact ⟨hdigit, hdash, hdigit, hdash, hdigit, List.forall_mem_nil _⟩

/-- What a text of full width is read as does not depend on its mark, if there is no such mark before it. -/
theorem readItems?_internet_mark (hs : ∀ x ∈ s, x ∉ marks) (hc : c ∈ marks) (r : List Char) :
    readItems? internet {} (s ++ c :: r) = (readItems? exactDate {} s).bind fun p =>
      if p.2 = [] then readItems? (exactTime ++ [.fraction, .zone]) p.1 r else none := by
  rw [internet, List.append_assoc, readItems?_append_items, readItems?_append (exactDate_stopsBefore hc)]
  cases hread : readItems? exactDate {} s with
  | none => rfl
  | some p =>
      obtain ⟨t, rest⟩ := p
      have hsuffix := readItems?_suffix (exactDate_stopsBefore hc) hread
      cases rest with
      | nil => exact readItems?_cons (read?_mark hc t r)
      | cons x rest =>
          have hx : (Item.mark marks).read? t (x :: (rest ++ c :: r)) = none :=
            if_neg (hs x (hsuffix.subset List.mem_cons_self))
          show readItems? (.mark marks :: (exactTime ++ [.fraction, .zone])) t (x :: (rest ++ c :: r)) = none
          rw [readItems?, hx]
          rfl

theorem mem_clock {time : ClockText} (h : c ∈ time.chars) : c.isDigit = true ∨ c = ':' := by
  simp only [ClockText.chars, List.mem_append, List.mem_cons] at h
  rcases h with h | rfl | h | rfl | h
  · exact .inl (time.hour.isDigit c h)
  · exact .inr rfl
  · exact .inl (time.minute.isDigit c h)
  · exact .inr rfl
  · exact .inl (time.second.isDigit c h)

theorem YearText.mem_chars {y : YearText} (h : c ∈ y.chars) : c.isDigit = true ∨ c = '-' ∨ c = '+' := by
  cases y with
  | plain number => exact .inl (number.isDigit c h)
  | signed negative digits _ hdigits =>
      rcases List.mem_cons.mp h with rfl | h
      · cases negative <;> simp
      · exact .inl (hdigits c h)

theorem YearText.exists_cons (y : YearText) : ∃ c rest, y.chars = c :: rest ∧ Text.isBlank c = false := by
  cases y with
  | plain number =>
      obtain ⟨c, rest, hchars⟩ := List.exists_cons_of_ne_nil number.ne_nil
      exact ⟨c, rest, hchars, isBlank_of_isDigit (number.isDigit c (by simp [hchars]))⟩
  | signed negative digits =>
      refine ⟨_, digits, rfl, ?_⟩
      cases negative <;> decide

theorem not_mem_marks {d : DayText} (h : c ∈ d.chars) : c ∉ marks := by
  have hsigns : ∀ x ∈ ['-', '+'], x ∉ marks := by simp [marks]
  have hdigit : c.isDigit = true → c ∉ marks := by
    intro hc hmark
    have hmarks : ∀ x ∈ marks, x.isDigit = false := by simp [marks]
    exact ne_of_isDigit hc (hmarks c hmark) rfl
  simp only [DayText.chars, List.mem_append, List.mem_cons] at h
  rcases h with h | rfl | h | rfl | h
  · rcases YearText.mem_chars h with hc | rfl | rfl
    · exact hdigit hc
    · decide
    · decide
  · decide
  · exact hdigit (d.month.isDigit c h)
  · decide
  · exact hdigit (d.day.isDigit c h)

theorem readFraction?_eq_nil : readFraction? s = some [] ↔ s = [] ∨ FractionText s := by
  constructor
  · intro h
    unfold readFraction? at h
    split at h
    · rename_i digits
      obtain ⟨hne, hdrop⟩ := Option.ite_none_left_eq_some.mp h
      have hdigits : ∀ c ∈ digits, c.isDigit = true := List.dropWhile_eq_nil_iff.mp (Option.some.inj hdrop)
      refine .inr (.point ?_ hdigits)
      rintro rfl
      exact hne (by simp [leadingDigits])
    · exact .inl (Option.some.inj h)
  · intro h
    have hstops : Stops [] := by simp [Stops]
    have hread := readFraction?_append h hstops
    rwa [List.append_nil] at hread

instance (s : List Char) : Decidable (FractionText s) :=
  decidable_of_iff (s ≠ [] ∧ readFraction? s = some []) <| by
    rw [readFraction?_eq_nil]
    constructor
    · exact fun ⟨hne, h⟩ => h.resolve_left hne
    · rintro ⟨hne, hdigits⟩
      exact ⟨List.cons_ne_nil _ _, .inr (.point hne hdigits)⟩

theorem readZone?_of_clock (hc : c.isDigit = true ∨ c = ':') (r : List Char) : readZone? (c :: r) = none := by
  have hother : ∀ d ∈ ['Z', 'z', '+', '-', Char.ofNat 0x2212], c ≠ d := by
    intro d hd
    have hmarks : ∀ x ∈ ['Z', 'z', '+', '-', Char.ofNat 0x2212], x.isDigit = false ∧ ':' ≠ x := by simp
    rcases hc with hc | rfl
    · exact ne_of_isDigit hc (hmarks d hd).1
    · exact (hmarks d hd).2
  simp only [List.forall_mem_cons] at hother
  obtain ⟨hZ, hz, hplus, hminus, hsign, -⟩ := hother
  simp [readZone?, hZ, hz, hplus, hminus, hsign]

theorem readFraction?_of_clock (hc : c.isDigit = true ∨ c = ':') (r : List Char) :
    readFraction? (c :: r) = some (c :: r) := by
  have hpoint : c ≠ '.' := by
    rintro rfl
    simp at hc
  simp [readFraction?, hpoint]

/-- Without an offset no text of full width is a point in time. -/
theorem readItems?_no_zone (time : ClockText) {f : List Char} (hf : FractionText f) (t : Timestamp) :
    readItems? (exactTime ++ [.fraction, .zone]) t (time.chars ++ f) = none := by
  have hpoint : ∀ item ∈ exactTime, item.StopsBefore '.' := by
    simp [exactTime, Item.StopsBefore]
  obtain ⟨hne, hdigits⟩ := hf
  rename_i digits
  rw [readItems?_append_items, readItems?_append hpoint]
  cases hread : readItems? exactTime t time.chars with
  | none => rfl
  | some p =>
      obtain ⟨t', rest⟩ := p
      have hsuffix := readItems?_suffix hpoint hread
      cases rest with
      | nil =>
          have hfraction := readFraction?_eq_nil.mpr (.inr (.point hne hdigits))
          show readItems? [.fraction, .zone] t' ('.' :: digits) = none
          simp [readItems?, Item.read?, hfraction, readZone?]
      | cons x rest =>
          have hx := mem_clock (hsuffix.subset List.mem_cons_self)
          have hfraction := readFraction?_of_clock hx (rest ++ '.' :: digits)
          show readItems? [.fraction, .zone] t' (x :: (rest ++ '.' :: digits)) = none
          simp [readItems?, Item.read?, hfraction, readZone?_of_clock hx]

end Timestamp

end RowQuery
