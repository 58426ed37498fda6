import Chatterbox.Collation
import Mathlib.Data.Nat.Find
import Mathlib.Order.Monotone.Basic

/-!
# The calendar

A `DateTime` is a date of the Gregorian calendar between the years 1 and 9999 with a
time of day to the microsecond, in UTC.  `micros` counts the microseconds since the
first of them, and compares as the fields do, from the year down (`compare_micros`).
`Fields.ofMicros` is the way back: every such number of microseconds has one set of
fields (`ofMicros_micros`).

Days are counted through the years, of which `daysBeforeYear` skips as many as have
passed, and the months of a year.
-/

namespace Chatterbox

/-! ## Years and months -/

/-- `year` has a 29th of February. -/
def isLeap (year : ℕ) : Bool := year % 4 = 0 ∧ (year % 100 ≠ 0 ∨ year % 400 = 0)

/-- The days of the years from 1 to the one before `year`. -/
def daysBeforeYear (year : ℕ) : ℕ :=
  365 * (year - 1) + (year - 1) / 4 - (year - 1) / 100 + (year - 1) / 400

def daysInMonth (leap : Bool) : ℕ → ℕ
  | 0 => 0
  | 2 => if leap then 29 else 28
  | 4 | 6 | 9 | 11 => 30
  | _ => 31

/-- The days of a year in front of a month; `daysBeforeMonth leap 13` is the year. -/
def daysBeforeMonth (leap : Bool) : ℕ → ℕ
  | 0 => 0
  | month + 1 => daysBeforeMonth leap month + daysInMonth leap month

section Years

variable {leap : Bool} {year : ℕ}

theorem daysBeforeMonth_mono (leap : Bool) : Monotone (daysBeforeMonth leap) :=
  monotone_nat_of_le_succ fun _ ↦ Nat.le_add_right _ _

theorem daysBeforeMonth_year : daysBeforeMonth leap 13 = if leap then 366 else 365 := by
  cases leap <;> rfl

theorem isLeap_iff : isLeap year ↔ 4 ∣ year ∧ (¬ 100 ∣ year ∨ 400 ∣ year) := by
  rw [isLeap, decide_eq_true_iff, Nat.dvd_iff_mod_eq_zero, Nat.dvd_iff_mod_eq_zero,
    Nat.dvd_iff_mod_eq_zero]

/-- A year later. -/
theorem daysBeforeYear_succ (h : 1 ≤ year) :
    daysBeforeYear (year + 1) = daysBeforeYear year + daysBeforeMonth (isLeap year) 13 := by
  obtain ⟨y, rfl⟩ := Nat.exists_eq_add_of_le' h
  have hle : y / 100 ≤ y := Nat.div_le_self y 100
  rw [daysBeforeMonth_year, daysBeforeYear, daysBeforeYear, Nat.add_sub_cancel, Nat.add_sub_cancel,
    Nat.succ_div, Nat.succ_div, Nat.succ_div]
  simp only [isLeap_iff]
  -- the centuries are among the fourth years, and every fourth of them is none of its own
  by_cases h4 : 4 ∣ y + 1
  · by_cases h100 : 100 ∣ y + 1
    · by_cases h400 : 400 ∣ y + 1
      · simp only [h4, h100, h400, if_true, not_true, false_or, and_self]
        omega
      · simp only [h4, h100, h400, if_true, if_false, not_true, false_or, and_false]
        omega
    · have h400 : ¬ 400 ∣ y + 1 := fun h ↦ h100 (Nat.dvd_trans (by decide) h)
      simp only [h4, h100, h400, if_true, if_false, not_false_iff, true_or, and_self]
      omega
  · have h100 : ¬ 100 ∣ y + 1 := fun h ↦ h4 (Nat.dvd_trans (by decide) h)
    have h400 : ¬ 400 ∣ y + 1 := fun h ↦ h4 (Nat.dvd_trans (by decide) h)
    simp only [h4, h100, h400, if_false, false_and]
    omega

theorem daysBeforeYear_mono {y y' : ℕ} (hy : 1 ≤ y) (h : y ≤ y') :
    daysBeforeYear y ≤ daysBeforeYear y' := by
  induction y', h using Nat.le_induction with
  | base => exact le_refl _
  | succ y' hle ih =>
      rw [daysBeforeYear_succ (hy.trans hle)]
      exact ih.trans (Nat.le_add_right _ _)

end Years

/-! ## Dates and times -/

/-- A date and a time of day, as far as they are numbers. -/
structure Fields where
  year : ℕ
  month : ℕ
  day : ℕ
  hour : ℕ
  minute : ℕ
  second : ℕ
  microsecond : ℕ
deriving DecidableEq, Repr

/-- The ranges of the fields. -/
structure Fields.Valid (f : Fields) : Prop where
  year : 1 ≤ f.year ∧ f.year ≤ 9999
  month : 1 ≤ f.month ∧ f.month ≤ 12
  day : 1 ≤ f.day ∧ f.day ≤ daysInMonth (isLeap f.year) f.month
  hour : f.hour < 24
  minute : f.minute < 60
  second : f.second < 60
  microsecond : f.microsecond < 1000000

/-- `datetime.datetime`, in UTC. -/
structure DateTime extends Fields where
  valid : toFields.Valid

namespace Fields

variable (f : Fields)

/-- The day, counted from the first one of the year 1. -/
def days : ℕ := daysBeforeYear f.year + daysBeforeMonth (isLeap f.year) f.month + (f.day - 1)

/-- The second, counted from the beginning of the year 1. -/
def seconds : ℕ := ((f.days * 24 + f.hour) * 60 + f.minute) * 60 + f.second

/-- The microsecond, counted from the beginning of the year 1. -/
def micros : ℕ := f.seconds * 1000000 + f.microsecond

end Fields

namespace DateTime

variable (a b : DateTime)

/-- A day is in its month. -/
theorem days_lt_month : daysBeforeMonth (isLeap a.year) a.month + (a.day - 1) <
    daysBeforeMonth (isLeap a.year) (a.month + 1) := by
  have hday := a.valid.day
  rw [daysBeforeMonth]
  omega

/-- A day is in its year. -/
theorem days_lt_year : a.days < daysBeforeYear (a.year + 1) := by
  have hmonth : daysBeforeMonth (isLeap a.year) (a.month + 1) ≤
      daysBeforeMonth (isLeap a.year) 13 := daysBeforeMonth_mono _ (Nat.succ_le_succ a.valid.month.2)
  have hday := a.days_lt_month
  rw [daysBeforeYear_succ a.valid.year.1, Fields.days, Nat.add_assoc]
  omega

/-- Days compare by year, month and day. -/
theorem compare_days : compare a.days b.days =
    (compare a.year b.year).then ((compare a.month b.month).then (compare a.day b.day)) := by
  have hyear : ∀ a b : DateTime, a.year < b.year → a.days < b.days := by
    intro a b h
    have hle := daysBeforeYear_mono (Nat.succ_pos _) h
    refine a.days_lt_year.trans_le (hle.trans ?_)
    rw [Fields.days, Nat.add_assoc]
    exact Nat.le_add_right _ _
  have hmonth : ∀ a b : DateTime, a.year = b.year → a.month < b.month → a.days < b.days := by
    intro a b he h
    have hle : daysBeforeMonth (isLeap a.year) (a.month + 1) ≤
        daysBeforeMonth (isLeap a.year) b.month := daysBeforeMonth_mono _ h
    have hday := a.days_lt_month
    rw [Fields.days, Fields.days, ← he]
    omega
  refine compare_eq_then (hyear a b) (hyear b a) fun he ↦ ?_
  refine compare_eq_then (hmonth a b he) (hmonth b a he.symm) fun hm ↦ ?_
  have hpos := a.valid.day.1
  have hpos' := b.valid.day.1
  rw [Fields.days, Fields.days, he, hm]
  refine (compare_eq_then (fun h ↦ ?_) (fun h ↦ ?_) fun h ↦ ?_).trans (Ordering.then_eq)
  · omega
  · omega
  · exact compare_eq_iff_eq.mpr (by rw [h])

/-- Seconds compare by the fields in front of the microseconds. -/
theorem compare_seconds : compare a.seconds b.seconds =
    (compare a.year b.year).then ((compare a.month b.month).then ((compare a.day b.day).then
      ((compare a.hour b.hour).then ((compare a.minute b.minute).then
        (compare a.second b.second))))) := by
  rw [Fields.seconds, Fields.seconds, compare_mul_add a.valid.second b.valid.second,
    compare_mul_add a.valid.minute b.valid.minute, compare_mul_add a.valid.hour b.valid.hour,
    compare_days, Ordering.then_assoc, Ordering.then_assoc, Ordering.then_assoc,
    Ordering.then_assoc]

/-- **Microseconds compare by the fields.** -/
theorem compare_micros : compare a.micros b.micros =
    (compare a.seconds b.seconds).then (compare a.microsecond b.microsecond) :=
  compare_mul_add a.valid.microsecond b.valid.microsecond

/-- The number of microseconds determines the fields. -/
theorem micros_injective : Function.Injective fun d : DateTime ↦ d.micros := by
  intro a b h
  have heq := compare_eq_iff_eq.mpr h
  dsimp only at heq
  rw [compare_micros, compare_seconds] at heq
  simp only [Ordering.then_eq_eq, compare_eq_iff_eq] at heq
  obtain ⟨⟨hyear, hmonth, hday, hhour, hminute, hsecond⟩, hmicrosecond⟩ := heq
  obtain ⟨⟨_, _, _, _, _, _, _⟩, _⟩ := a
  obtain ⟨⟨_, _, _, _, _, _, _⟩, _⟩ := b
  dsimp only at *
  subst hyear hmonth hday hhour hminute hsecond hmicrosecond
  rfl

end DateTime

/-! ## From a number to the fields -/

/-- How many periods of 400, 100, 4 and 1 years have passed, and the day of the year. -/
structure Periods where
  n400 : ℕ
  n100 : ℕ
  n4 : ℕ
  n1 : ℕ
  day : ℕ

/-- The last of the periods of 100 years in one of 400, and of those of one year in one of 4,
is a day longer than the others. -/
def periods (days : ℕ) : Periods :=
  let n100 := min (days % 146097 / 36524) 3
  let rest := days % 146097 - 36524 * n100
  let n1 := min (rest % 1461 / 365) 3
  ⟨days / 146097, n100, rest / 1461, n1, rest % 1461 - 365 * n1⟩

def Periods.year (p : Periods) : ℕ := 400 * p.n400 + 100 * p.n100 + 4 * p.n4 + p.n1 + 1

/-- What the periods of a day are. -/
structure Periods.Spec (p : Periods) (days : ℕ) : Prop where
  sum : 146097 * p.n400 + 36524 * p.n100 + 1461 * p.n4 + 365 * p.n1 + p.day = days
  n100 : p.n100 ≤ 3
  n4 : p.n4 ≤ 24
  n1 : p.n1 ≤ 3
  day : p.day ≤ 365
  last : p.day = 365 → p.n1 = 3 ∧ (p.n4 = 24 → p.n100 = 3)

theorem periods_spec (days : ℕ) : (periods days).Spec days := by
  have hsum := Nat.div_add_mod days 146097
  have hlt := Nat.mod_lt days (y := 146097) (by decide)
  unfold periods
  dsimp only
  generalize days / 146097 = n400 at hsum ⊢
  generalize days % 146097 = rest at hsum hlt ⊢
  have h100 : 36524 * min (rest / 36524) 3 ≤ rest ∧
      rest - 36524 * min (rest / 36524) 3 ≤ 36524 ∧
      (rest - 36524 * min (rest / 36524) 3 = 36524 → min (rest / 36524) 3 = 3) := by omega
  generalize hn100 : min (rest / 36524) 3 = n100 at h100 ⊢
  have hn100' : n100 ≤ 3 := hn100 ▸ Nat.min_le_right _ _
  obtain ⟨q, hq⟩ : ∃ q, q = rest - 36524 * n100 := ⟨_, rfl⟩
  rw [← hq] at h100 ⊢
  have hq4 := Nat.div_add_mod q 1461
  have hqlt := Nat.mod_lt q (y := 1461) (by decide)
  generalize q / 1461 = n4 at hq4 ⊢
  generalize q % 1461 = s at hq4 hqlt ⊢
  have h1 : 365 * min (s / 365) 3 ≤ s ∧ s - 365 * min (s / 365) 3 ≤ 365 ∧
      (s - 365 * min (s / 365) 3 = 365 → min (s / 365) 3 = 3) := by omega
  generalize hn1 : min (s / 365) 3 = n1 at h1 ⊢
  have hn1' : n1 ≤ 3 := hn1 ▸ Nat.min_le_right _ _
  constructor <;> dsimp only <;> omega

namespace Periods.Spec

variable {p : Periods} {days : ℕ}

/-- The years in front of the day. -/
theorem daysBeforeYear_add (h : p.Spec days) : daysBeforeYear p.year + p.day = days := by
  obtain ⟨hsum, h100, h4, h1, -, -⟩ := h
  have hyear : p.year - 1 = 400 * p.n400 + 100 * p.n100 + 4 * p.n4 + p.n1 :=
    Nat.add_sub_cancel ..
  have hdiv4 : (p.year - 1) / 4 = 100 * p.n400 + 25 * p.n100 + p.n4 := by omega
  have hdiv100 : (p.year - 1) / 100 = 4 * p.n400 + p.n100 := by omega
  have hdiv400 : (p.year - 1) / 400 = p.n400 := by omega
  rw [daysBeforeYear, hdiv4, hdiv100, hdiv400, hyear]
  omega

/-- The day is one of the year. -/
theorem day_lt (h : p.Spec days) : p.day < daysBeforeMonth (isLeap p.year) 13 := by
  rw [daysBeforeMonth_year]
  split
  · exact Nat.lt_succ_of_le h.day
  · rename_i hleap
    refine Nat.lt_of_le_of_ne h.day fun hlast ↦ hleap (isLeap_iff.mpr ?_)
    obtain ⟨hn1, hn100⟩ := h.last hlast
    have hn4 := h.n4
    rw [Periods.year, hn1]
    refine ⟨⟨100 * p.n400 + 25 * p.n100 + p.n4 + 1, by omega⟩, ?_⟩
    by_cases h24 : p.n4 = 24
    · refine .inr ⟨p.n400 + 1, ?_⟩
      rw [h24, hn100 h24]
      omega
    · refine .inl fun ⟨k, hk⟩ ↦ ?_
      omega

end Periods.Spec

/-- The month of a day of the year. -/
def monthOf (leap : Bool) (day : ℕ) : ℕ :=
  Nat.findGreatest (fun month ↦ daysBeforeMonth leap month ≤ day) 12

theorem monthOf_spec {leap : Bool} {day : ℕ} (h : day < daysBeforeMonth leap 13) :
    1 ≤ monthOf leap day ∧ monthOf leap day ≤ 12 ∧
      daysBeforeMonth leap (monthOf leap day) ≤ day ∧
      day < daysBeforeMonth leap (monthOf leap day + 1) := by
  have hfirst : daysBeforeMonth leap 1 ≤ day := Nat.zero_le day
  have hle : monthOf leap day ≤ 12 := Nat.findGreatest_le 12
  refine ⟨Nat.le_findGreatest (by decide) hfirst, hle,
    Nat.findGreatest_spec (P := fun month ↦ daysBeforeMonth leap month ≤ day) (by decide)
      hfirst, ?_⟩
  rcases Nat.lt_or_ge (monthOf leap day) 12 with hlt | hge
  · exact Nat.lt_of_not_le (Nat.findGreatest_is_greatest
      (P := fun month ↦ daysBeforeMonth leap month ≤ day) (Nat.lt_succ_self _) hlt)
  · rwa [hle.antisymm hge]

/-- The fields of a number of microseconds. -/
def Fields.ofMicros (t : ℕ) : Fields :=
  let seconds := t / 1000000
  let p := periods (seconds / 86400)
  let month := monthOf (isLeap p.year) p.day
  { year := p.year
    month
    day := p.day - daysBeforeMonth (isLeap p.year) month + 1
    hour := seconds / 3600 % 24
    minute := seconds / 60 % 60
    second := seconds % 60
    microsecond := t % 1000000 }

/-- They are those of a date and a time, if the year is not too late. -/
theorem Fields.valid_ofMicros {t : ℕ} (h : (ofMicros t).year ≤ 9999) : (ofMicros t).Valid := by
  obtain ⟨hpos, hle, hday, hlt⟩ := monthOf_spec (periods_spec (t / 1000000 / 86400)).day_lt
  refine ⟨⟨Nat.succ_pos _, h⟩, ⟨hpos, hle⟩, ⟨Nat.succ_pos _, ?_⟩, Nat.mod_lt _ (by decide),
    Nat.mod_lt _ (by decide), Nat.mod_lt _ (by decide), Nat.mod_lt _ (by decide)⟩
  rw [daysBeforeMonth] at hlt
  unfold ofMicros
  dsimp only
  omega

/-- And make that number again. -/
theorem Fields.micros_ofMicros (t : ℕ) : (ofMicros t).micros = t := by
  have hspec := periods_spec (t / 1000000 / 86400)
  have hday := (monthOf_spec hspec.day_lt).2.2.1
  have hdays : (ofMicros t).days = t / 1000000 / 86400 := by
    rw [← hspec.daysBeforeYear_add, days, ofMicros]
    dsimp only
    omega
  have hseconds : (ofMicros t).seconds = t / 1000000 := by
    rw [seconds, hdays, ofMicros]
    dsimp only
    omega
  rw [micros, hseconds]
  exact Nat.div_add_mod' t 1000000

/-- **The way back.** -/
theorem DateTime.ofMicros_micros (d : DateTime) : Fields.ofMicros d.micros = d.toFields := by
  have hyear : (Fields.ofMicros d.micros).year ≤ 9999 := by
    by_contra hlate
    have hdays : d.micros / 1000000 / 86400 = d.days := by
      have hhour := d.valid.hour
      have hminute := d.valid.minute
      have hsecond := d.valid.second
      have hmicrosecond := d.valid.microsecond
      rw [Fields.micros, Fields.seconds]
      omega
    have hspec := periods_spec (d.micros / 1000000 / 86400)
    have hsum := hspec.daysBeforeYear_add
    have hle := daysBeforeYear_mono (Nat.succ_pos _) (Nat.succ_le_succ d.valid.year.2)
    have hge : daysBeforeYear 10000 ≤
        daysBeforeYear (periods (d.micros / 1000000 / 86400)).year :=
      daysBeforeYear_mono (by decide) (Nat.lt_of_not_le hlate)
    have hlt := d.days_lt_year
    rw [hdays] at hsum hge
    have hlast : daysBeforeYear (d.year + 1) ≤ daysBeforeYear 10000 := hle
    omega
  let e : DateTime := ⟨_, Fields.valid_ofMicros hyear⟩
  have he : e = d := micros_injective (Fields.micros_ofMicros d.micros)
  exact congrArg toFields he

end Chatterbox
