import Chatterbox.Calendar

/-!
# Dates and times as texts

`datetime.isoformat`, and `datetime.fromisoformat` as CPython 3.12 has it: a date with hyphens or
without them, of a month or of a week; one character; and a time of day with colons or without them,
perhaps with an offset.  Digits are those of ASCII.

What is between the time and its offset is not always looked at.  The parser of C takes one
character behind the digits for the end, and whatever is not a digit behind six digits of a fraction;
and it says whether the text really ends there, which only matters if no offset follows
(`parseOffset`).  A NUL ends the text, too.

| text | of |
|---|---|
| `2024-01-01T00:00:00+00:00` | an instant without microseconds |
| `2024-01-01T05:30:00.500000+05:30` | one with microseconds, east of UTC |

`fromisoformat_isoformat` says that the one text is read as what the other is of.
-/

namespace Chatterbox.Isoformat

/-- `datetime.timezone`: an offset from UTC in microseconds. -/
structure Zone where
  offset : ℤ
  lt_day : offset.natAbs < 86400000000
deriving DecidableEq

/-- `datetime.datetime`, with its zone if it is aware. -/
structure ZonedDateTime extends DateTime where
  tzinfo : Option Zone

/-! ## `isoformat` -/

/-- The fraction of a second, if there is one. -/
def fraction (microsecond : ℕ) : List Char :=
  if microsecond = 0 then [] else '.' :: digits 10 6 microsecond

/-- `_format_offset`: the seconds are left out if there are none. -/
def formatOffset (z : Zone) : List Char :=
  let micros := z.offset.natAbs
  let seconds := micros / 1000000
  (if z.offset < 0 then '-' else '+') ::
    (digits 10 2 (seconds / 3600) ++ ':' :: (digits 10 2 (seconds / 60 % 60) ++
      if micros % 60000000 = 0 then []
      else ':' :: (digits 10 2 (seconds % 60) ++ fraction (micros % 1000000))))

def formatDate (f : Fields) : List Char :=
  digits 10 4 f.year ++ '-' :: (digits 10 2 f.month ++ '-' :: digits 10 2 f.day)

/-- `_format_time`. -/
def formatTime (f : Fields) : List Char :=
  digits 10 2 f.hour ++ ':' :: (digits 10 2 f.minute ++
    ':' :: (digits 10 2 f.second ++ fraction f.microsecond))

/-- `datetime.isoformat`. -/
def isoformat (d : ZonedDateTime) : List Char :=
  formatDate d.toFields ++ 'T' :: (formatTime d.toFields ++ (d.tzinfo.map formatOffset).getD [])

/-! ## `fromisoformat` -/

/-- `parse_digits`: so many digits behind those of a number. -/
def parseDigits : ℕ → ℕ → List Char → Option (ℕ × List Char)
  | 0, n, s => some (n, s)
  | _ + 1, _, [] => none
  | width + 1, n, c :: s =>
      if c.isDigit then parseDigits width (n * 10 + (c.toNat - '0'.toNat)) s else none

/-- A separator, where the text has them. -/
def parseSeparator (c : Char) (hasSep : Bool) (s : List Char) : Option (List Char) :=
  if hasSep then if s.head? = some c then some s.tail else none else some s

/-- `_find_isoformat_datetime_separator`: how long the date is. -/
def findSeparator (s : List Char) : Option ℕ :=
  if s.length = 7 then some 7
  else if s[4]? = some '-' then
    if s[5]? = some 'W' then
      if s[8]? = some '-' then
        if s.length = 9 then none
        else if s[10]?.any Char.isDigit then some 8
        else some 10
      else some 8
    else some 10
  else if s[4]? = some 'W' then
    let idx := 7 + ((s.drop 7).takeWhile Char.isDigit).length
    if idx < 9 then some idx else if idx % 2 = 0 then some 7 else some 8
  else some 8

/-- `_isoweek_to_gregorian`: the year, the month and the day. -/
def isoweekToGregorian (year week day : ℕ) : Option (ℕ × ℕ × ℕ) :=
  let firstDay := daysBeforeYear year + 1
  let firstWeekday := (firstDay + 6) % 7
  let weeks := if firstWeekday = 3 ∨ firstWeekday = 2 ∧ isLeap year then 53 else 52
  if 1 ≤ year ∧ 1 ≤ week ∧ week ≤ weeks ∧ 1 ≤ day ∧ day ≤ 7 then
    let monday := firstDay - firstWeekday + if 3 < firstWeekday then 7 else 0
    let ordinal := monday + (week - 1) * 7 + (day - 1)
    let f := Fields.ofMicros ((ordinal - 1) * 86400 * 1000000)
    some (f.year, f.month, f.day)
  else none

/-- `_parse_isoformat_date`. -/
def parseDate (s : List Char) : Option (ℕ × ℕ × ℕ) := do
  let (year, s) ← parseDigits 4 0 s
  let hasSep : Bool := s.head? = some '-'
  let s ← parseSeparator '-' hasSep s
  if s.head? = some 'W' then
    let (week, s) ← parseDigits 2 0 s.tail
    if s = [] then isoweekToGregorian year week 1
    else
      let s ← parseSeparator '-' hasSep s
      let (day, _) ← parseDigits 1 0 s
      isoweekToGregorian year week day
  else
    let (month, s) ← parseDigits 2 0 s
    let s ← parseSeparator '-' hasSep s
    let (day, _) ← parseDigits 2 0 s
    pure (year, month, day)

/-- A text ends where there is nothing more, or a NUL. -/
def atEnd (s : List Char) : Bool := s.headD '\x00' = '\x00'

/-- The microseconds of a fraction, and whether the text ends behind it; what there is behind six
digits does not count. -/
def parseFraction (s : List Char) : Option (ℕ × Bool) :=
  let width := min 6 s.length
  (parseDigits width 0 s).map fun (n, s) ↦
    (n * 10 ^ (6 - width), atEnd (s.dropWhile Char.isDigit))

/-- What there is behind the digits of a field. -/
inductive Behind where
  /-- No more than one character, and whether that is none, or a NUL. -/
  | over (done : Bool)
  | field (s : List Char)
  | fraction (s : List Char)

/-- The end of a turn of the loop of `_parse_hh_mm_ss_ff`. -/
def behind (hasSep : Bool) : List Char → Option Behind
  | [] => some (.over true)
  -- the end is found by counting bytes, and a character that is not of ASCII has more than one
  | [c] => if c.toNat < 128 then some (.over (c = '\x00')) else none
  | c :: s =>
      if hasSep ∧ c = ':' then some (.field s)
      else if c = '.' ∨ c = ',' then some (.fraction s)
      else if hasSep then none
      else some (.field (c :: s))

/-- The loop of `_parse_hh_mm_ss_ff`: so many fields at most, and a fraction, which is what there is
behind the last field in any case. -/
def parseFields : ℕ → Bool → List Char → Option (List ℕ × ℕ × Bool)
  | 0, _, s => (parseFraction s).map fun (microsecond, done) ↦ ([], microsecond, done)
  | k + 1, hasSep, s => do
      let (n, s) ← parseDigits 2 0 s
      match ← behind hasSep s with
      | .over done => pure ([n], 0, done)
      | .field s =>
          let (ns, microsecond, done) ← parseFields k hasSep s
          pure (n :: ns, microsecond, done)
      | .fraction s =>
          let (microsecond, done) ← parseFraction s
          pure ([n], microsecond, done)

/-- `_parse_hh_mm_ss_ff`: hours, minutes, seconds and microseconds, and whether the text ends behind
them. -/
def parseClock (s : List Char) : Option ((ℕ × ℕ × ℕ × ℕ) × Bool) :=
  (parseFields 3 (s[2]? = some ':') s).map fun (ns, microsecond, done) ↦
    ((ns.getD 0 0, ns.getD 1 0, ns.getD 2 0, microsecond), done)

/-- A zone of an offset that is not too large; one of less than a second is UTC. -/
def zoneOf (negative : Bool) : ℕ × ℕ × ℕ × ℕ → Option Zone
  | (hour, minute, second, microsecond) =>
      let seconds := hour * 3600 + minute * 60 + second
      let micros : ℕ := if seconds = 0 then 0 else seconds * 1000000 + microsecond
      let offset : ℤ := if negative then -micros else micros
      if h : offset.natAbs < 86400000000 then some ⟨offset, h⟩ else none

/-- The offset behind a time, if there is one; if not, the text has to end there. -/
def parseOffset (done : Bool) : List Char → Option (Option Zone)
  | [] => if done then some none else none
  | c :: s =>
      if c = 'Z' then if atEnd s then some (some ⟨0, by decide⟩) else none
      else (parseClock s).bind fun (clock, done) ↦
        if done then (zoneOf (c = '-') clock).map some else none

/-- What an offset begins with. -/
def isSign (c : Char) : Bool := c = '+' || c = '-' || c = 'Z'

/-- `_parse_isoformat_time`. -/
def parseTime (s : List Char) : Option ((ℕ × ℕ × ℕ × ℕ) × Option Zone) := do
  let (clock, done) ← parseClock (s.takeWhile (!isSign ·))
  let tzinfo ← parseOffset done (s.dropWhile (!isSign ·))
  pure (clock, tzinfo)

instance decidableValid (f : Fields) : Decidable f.Valid :=
  decidable_of_iff ((1 ≤ f.year ∧ f.year ≤ 9999) ∧ (1 ≤ f.month ∧ f.month ≤ 12) ∧
    (1 ≤ f.day ∧ f.day ≤ daysInMonth (isLeap f.year) f.month) ∧ f.hour < 24 ∧ f.minute < 60 ∧
      f.second < 60 ∧ f.microsecond < 1000000)
    ⟨fun ⟨h₁, h₂, h₃, h₄, h₅, h₆, h₇⟩ ↦ ⟨h₁, h₂, h₃, h₄, h₅, h₆, h₇⟩,
      fun ⟨h₁, h₂, h₃, h₄, h₅, h₆, h₇⟩ ↦ ⟨h₁, h₂, h₃, h₄, h₅, h₆, h₇⟩⟩

/-- `_sanitize_isoformat_str`: a surrogate that is not in a pair, here `none`, may stand where the
separator can be. -/
def sanitize (s : List (Option Char)) : List (Option Char) :=
  match [7, 8, 10].find? fun i ↦ s[i]? = some none with
  | some i => s.set i (some 'T')
  | none => s

/-- `datetime.fromisoformat`; `none` where it raises a `ValueError`. -/
def fromisoformat (s : List (Option Char)) : Option ZonedDateTime :=
  if s.length < 7 then none
  else do
    let s ← (sanitize s).mapM id
    let separator ← findSeparator s
    let (year, month, day) ← parseDate (s.take separator)
    let ((hour, minute, second, microsecond), tzinfo) ←
      if s.length ≤ separator then some ((0, 0, 0, 0), none) else parseTime (s.drop (separator + 1))
    let f : Fields := ⟨year, month, day, hour, minute, second, microsecond⟩
    if h : f.Valid then some ⟨⟨f, h⟩, tzinfo⟩ else none

/-! ## What is written is read back -/

variable {n width k hour minute second microsecond : ℕ} {s t : List Char} {c : Char}

theorem toNat_digitChar (h : n < 10) : (Nat.digitChar n).toNat - '0'.toNat = n := by
  have hall : ∀ i : Fin 10, (Nat.digitChar i).toNat - '0'.toNat = i.val := by decide
  exact hall ⟨n, h⟩

theorem parseDigits_cons (h : n < 10) (m : ℕ) (s : List Char) :
    parseDigits (k + 1) m (Nat.digitChar n :: s) = parseDigits k (m * 10 + n) s := by
  rw [parseDigits, if_pos (isDigit_digitChar h), toNat_digitChar h]

/-- The first digits are those of a number, if it has as many. -/
theorem parseDigits_add (hn : n < 10 ^ width) (k m : ℕ) (s : List Char) :
    parseDigits (width + k) m (digits 10 width n ++ s) = parseDigits k (m * 10 ^ width + n) s := by
  induction width generalizing n k s with
  | zero =>
      obtain rfl : n = 0 := by omega
      simp [digits]
  | succ width ih =>
      have hdiv : n / 10 < 10 ^ width := by omega
      have hmod : n % 10 < 10 := Nat.mod_lt n (by decide)
      have hvalue : (m * 10 ^ width + n / 10) * 10 + n % 10 = m * 10 ^ (width + 1) + n := by
        have hsum := Nat.div_add_mod n 10
        rw [Nat.pow_succ, ← Nat.mul_assoc]
        omega
      rw [digits, List.append_assoc, Nat.add_assoc, ih hdiv, List.singleton_append, Nat.add_comm 1,
        parseDigits_cons hmod, hvalue]

theorem parseDigits_digits (hn : n < 10 ^ width) (s : List Char) :
    parseDigits width 0 (digits 10 width n ++ s) = some (n, s) := by
  have h : parseDigits (width + 0) 0 (digits 10 width n ++ s) = _ := parseDigits_add hn 0 0 s
  rwa [Nat.zero_mul, Nat.zero_add] at h

/-- Months, days, hours and so on have two digits. -/
theorem parseDigits_two (hn : n < 100) (s : List Char) :
    parseDigits 2 0 (digits 10 2 n ++ s) = some (n, s) :=
  parseDigits_digits hn s

/-- Digits begin with a digit. -/
theorem digits_eq_cons (hwidth : 0 < width) (n : ℕ) :
    ∃ d t, digits 10 width n = Nat.digitChar d :: t ∧ d < 10 := by
  induction width generalizing n with
  | zero => exact absurd hwidth (lt_irrefl 0)
  | succ width ih =>
      have hmod : n % 10 < 10 := Nat.mod_lt n (by decide)
      rcases Nat.eq_zero_or_pos width with rfl | hpos
      · exact ⟨n % 10, [], rfl, hmod⟩
      · obtain ⟨d, t, h, hd⟩ := ih hpos (n / 10)
        exact ⟨d, t ++ [Nat.digitChar (n % 10)], by rw [digits, h, List.cons_append], hd⟩

/-- Six digits are a fraction. -/
theorem parseFraction_digits (h : microsecond < 1000000) :
    parseFraction (digits 10 6 microsecond) = some (microsecond, true) := by
  have hlt : microsecond < 10 ^ 6 := by omega
  have hparse := parseDigits_digits hlt []
  rw [List.append_nil] at hparse
  simp [parseFraction, length_digits, hparse, atEnd]

theorem parseSeparator_cons (c : Char) (s : List Char) :
    parseSeparator c true (c :: s) = some s := by
  simp [parseSeparator]

theorem getElem?_two (n : ℕ) (c : Char) (s : List Char) :
    (digits 10 2 n ++ c :: s)[2]? = some c := by
  rw [List.getElem?_append_right (length_digits ..).le, length_digits]
  rfl

theorem ne_nil_of_digits (n : ℕ) (s : List Char) : digits 10 2 n ++ s ≠ [] := by
  refine List.append_ne_nil_of_left_ne_nil (List.ne_nil_of_length_pos ?_) s
  rw [length_digits]
  decide

/-- A field that another one follows. -/
theorem parseFields_colon (hn : n < 100) (hs : s ≠ []) : parseFields (k + 1) true
    (digits 10 2 n ++ ':' :: s) =
      (parseFields k true s).map fun (ns, microsecond, done) ↦ (n :: ns, microsecond, done) := by
  obtain ⟨c, s, rfl⟩ := List.exists_cons_of_ne_nil hs
  have hbehind : behind true (':' :: c :: s) = some (.field (c :: s)) := by simp [behind]
  simp only [parseFields, parseDigits_two hn, hbehind, Option.bind_eq_bind, Option.bind_some]
  cases parseFields k true (c :: s) <;> rfl

/-- The last field, and perhaps a fraction. -/
theorem parseFields_fraction (hn : n < 100) (h : microsecond < 1000000) : parseFields (k + 1) true
    (digits 10 2 n ++ fraction microsecond) = some ([n], microsecond, true) := by
  simp only [parseFields, parseDigits_two hn, Option.bind_eq_bind, Option.bind_some, fraction]
  split
  · next hzero => rw [hzero]; rfl
  · obtain ⟨d, t, ht, -⟩ := digits_eq_cons (by decide : 0 < 6) microsecond
    have hbehind : behind true ('.' :: digits 10 6 microsecond) =
        some (.fraction (digits 10 6 microsecond)) := by simp [ht, behind]
    rw [hbehind, Option.bind_some]
    simp only [parseFraction_digits h, Option.bind_some]
    rfl

/-- Hours and minutes. -/
theorem parseClock_minutes (hhour : hour < 100) (hminute : minute < 100) :
    parseClock (digits 10 2 hour ++ ':' :: digits 10 2 minute) =
      some ((hour, minute, 0, 0), true) := by
  have hlast : parseFields 2 true (digits 10 2 minute) = some ([minute], 0, true) := by
    have h := parseFields_fraction (k := 1) hminute (by decide : 0 < 1000000)
    rwa [fraction, if_pos rfl, List.append_nil] at h
  have hne := ne_nil_of_digits minute []
  rw [List.append_nil] at hne
  rw [parseClock, getElem?_two, decide_eq_true rfl, parseFields_colon hhour hne, hlast]
  rfl

/-- Hours, minutes, seconds and a fraction. -/
theorem parseClock_seconds (hhour : hour < 100) (hminute : minute < 100) (hsecond : second < 100)
    (hmicrosecond : microsecond < 1000000) :
    parseClock (digits 10 2 hour ++ ':' :: (digits 10 2 minute ++
      ':' :: (digits 10 2 second ++ fraction microsecond))) =
      some ((hour, minute, second, microsecond), true) := by
  rw [parseClock, getElem?_two, decide_eq_true rfl,
    parseFields_colon hhour (ne_nil_of_digits _ _),
    parseFields_colon hminute (ne_nil_of_digits _ _), parseFields_fraction hsecond hmicrosecond]
  rfl

/-- No character of a time is one that an offset begins with. -/
theorem not_isSign_formatTime {f : Fields} (h : c ∈ formatTime f) : ¬ isSign c := by
  have hdigit : c.isDigit → ¬ isSign c := by
    intro hc hsign
    simp only [isSign, Bool.or_eq_true, decide_eq_true_eq] at hsign
    rcases hsign with (rfl | rfl) | rfl <;> exact absurd hc (by decide)
  have hfraction : ∀ microsecond, c ∈ fraction microsecond → ¬ isSign c := by
    intro microsecond hc
    rw [fraction] at hc
    split at hc
    · cases hc
    · rcases List.mem_cons.mp hc with rfl | hc
      · decide
      · exact hdigit (isDigit_of_mem_digits hc)
  simp only [formatTime, List.mem_append, List.mem_cons] at h
  rcases h with h | rfl | h | rfl | h | h
  · exact hdigit (isDigit_of_mem_digits h)
  · decide
  · exact hdigit (isDigit_of_mem_digits h)
  · decide
  · exact hdigit (isDigit_of_mem_digits h)
  · exact hfraction _ h

/-- The zone of a whole number of minutes. -/
def Zone.ofMinutes (minutes : ℤ) (h : minutes.natAbs < 1440) : Zone :=
  ⟨minutes * 60000000, by omega⟩

theorem formatOffset_ofMinutes (minutes : ℤ) (h : minutes.natAbs < 1440) :
    formatOffset (.ofMinutes minutes h) = (if minutes < 0 then '-' else '+') ::
      (digits 10 2 (minutes.natAbs / 60) ++ ':' :: digits 10 2 (minutes.natAbs % 60)) := by
  have hmicros : (minutes * 60000000).natAbs = minutes.natAbs * 60000000 := by omega
  have hhour : minutes.natAbs * 60000000 / 1000000 / 3600 = minutes.natAbs / 60 := by omega
  have hminute : minutes.natAbs * 60000000 / 1000000 / 60 % 60 = minutes.natAbs % 60 := by omega
  have hneg : minutes * 60000000 < 0 ↔ minutes < 0 := by omega
  simp [formatOffset, Zone.ofMinutes, hmicros, hhour, hminute, hneg]

/-- The offset of a whole number of minutes is read back. -/
theorem parseOffset_formatOffset (done : Bool) (minutes : ℤ) (h : minutes.natAbs < 1440) :
    parseOffset done (formatOffset (.ofMinutes minutes h)) =
      some (some (.ofMinutes minutes h)) := by
  have hclock : parseClock (digits 10 2 (minutes.natAbs / 60) ++
      ':' :: digits 10 2 (minutes.natAbs % 60)) =
      some ((minutes.natAbs / 60, minutes.natAbs % 60, 0, 0), true) :=
    parseClock_minutes (by omega) (by omega)
  have hseconds : minutes.natAbs / 60 * 3600 + minutes.natAbs % 60 * 60 + 0 =
      minutes.natAbs * 60 := by omega
  have hmicros : (if minutes.natAbs * 60 = 0 then 0 else minutes.natAbs * 60 * 1000000 + 0) =
      minutes.natAbs * 60000000 := by
    by_cases hzero : minutes.natAbs * 60 = 0
    · rw [if_pos hzero]
      omega
    · rw [if_neg hzero, Nat.add_zero, Nat.mul_assoc]
  have hzone : zoneOf (minutes < 0) (minutes.natAbs / 60, minutes.natAbs % 60, 0, 0) =
      some (.ofMinutes minutes h) := by
    have hoffset : (if minutes < 0 then -((minutes.natAbs * 60000000 : ℕ) : ℤ)
        else ((minutes.natAbs * 60000000 : ℕ) : ℤ)) = minutes * 60000000 := by
      by_cases hneg : minutes < 0
      · rw [if_pos hneg]
        omega
      · rw [if_neg hneg]
        omega
    have hday : (minutes * 60000000).natAbs < 86400000000 := by omega
    simp only [zoneOf, hseconds, hmicros, decide_eq_true_eq, hoffset]
    exact dif_pos hday
  rw [formatOffset_ofMinutes]
  by_cases hneg : minutes < 0
  · rw [decide_eq_true hneg] at hzone
    simp [parseOffset, hneg, hclock, hzone]
  · rw [decide_eq_false hneg] at hzone
    simp [parseOffset, hneg, hclock, hzone]

/-- A time with an offset is read back. -/
theorem parseTime_formatTime {f : Fields} (hf : f.Valid) (minutes : ℤ)
    (h : minutes.natAbs < 1440) :
    parseTime (formatTime f ++ formatOffset (.ofMinutes minutes h)) =
      some ((f.hour, f.minute, f.second, f.microsecond), some (.ofMinutes minutes h)) := by
  have hclock : parseClock (formatTime f) =
      some ((f.hour, f.minute, f.second, f.microsecond), true) :=
    parseClock_seconds (hf.hour.trans (by decide)) (hf.minute.trans (by decide))
      (hf.second.trans (by decide)) hf.microsecond
  have hclear : ∀ c ∈ formatTime f, !isSign c := by
    intro c hc
    rw [Bool.not_eq_true', Bool.eq_false_iff]
    exact not_isSign_formatTime hc
  obtain ⟨c, t, hoffset, hsign⟩ : ∃ c t, formatOffset (.ofMinutes minutes h) = c :: t ∧
      isSign c := by
    rw [formatOffset_ofMinutes]
    refine ⟨_, _, rfl, ?_⟩
    split <;> rfl
  have hparse := parseOffset_formatOffset true minutes h
  rw [hoffset] at hparse
  rw [parseTime, hoffset, List.takeWhile_append_of_pos hclear, List.dropWhile_append_of_pos hclear,
    List.takeWhile_cons_of_neg (by simp [hsign]), List.dropWhile_cons_of_neg (by simp [hsign]),
    List.append_nil, hclock, Option.bind_eq_bind, Option.bind_some]
  dsimp only
  rw [hparse]
  rfl

theorem digits_head?_ne (hwidth : 0 < width) (hc : ¬ c.isDigit) (n : ℕ) (s : List Char) :
    (digits 10 width n ++ s).head? ≠ some c := by
  obtain ⟨d, t, h, hd⟩ := digits_eq_cons hwidth n
  rw [h, List.cons_append, List.head?_cons]
  rintro ⟨⟩
  exact hc (isDigit_digitChar hd)

/-- A date is read back. -/
theorem parseDate_formatDate {f : Fields} (hf : f.Valid) :
    parseDate (formatDate f) = some (f.year, f.month, f.day) := by
  have hday : ∀ leap month, daysInMonth leap month ≤ 31 := by
    intro leap month
    unfold daysInMonth
    split <;> (try split) <;> decide
  have hyear : f.year < 10 ^ 4 := Nat.lt_succ_of_le hf.year.2
  have hmonth : f.month < 100 := hf.month.2.trans_lt (by decide)
  have hday : f.day < 100 := (hf.day.2.trans (hday _ _)).trans_lt (by decide)
  have hweek : (digits 10 2 f.month ++ '-' :: digits 10 2 f.day).head? ≠ some 'W' :=
    digits_head?_ne (by decide) (by decide) _ _
  have hparse := parseDigits_two hday []
  rw [List.append_nil] at hparse
  simp only [parseDate, formatDate, parseDigits_digits hyear, Option.bind_eq_bind,
    Option.bind_some, List.head?_cons, decide_true, parseSeparator_cons, if_neg hweek,
    parseDigits_two hmonth, hparse]
  rfl

theorem length_formatDate (f : Fields) : (formatDate f).length = 10 := by
  simp [formatDate, length_digits]

theorem findSeparator_formatDate (f : Fields) (s : List Char) :
    findSeparator (formatDate f ++ s) = some 10 := by
  have hlength : (formatDate f ++ s).length ≠ 7 := by
    rw [List.length_append, length_formatDate]
    omega
  have hhyphen : (formatDate f ++ s)[4]? = some '-' := by
    rw [formatDate, List.append_assoc, List.getElem?_append_right (length_digits ..).le,
      length_digits]
    rfl
  have hweek : (formatDate f ++ s)[5]? ≠ some 'W' := by
    rw [formatDate, List.append_assoc, List.getElem?_append_right (by rw [length_digits]; decide),
      length_digits, List.cons_append, List.getElem?_cons_succ, ← List.head?_eq_getElem?,
      List.append_assoc]
    exact digits_head?_ne (by decide) (by decide) _ _
  rw [findSeparator, if_neg hlength, if_pos hhyphen, if_neg hweek]

/-- A text has no surrogates. -/
theorem mapM_sanitize (s : List Char) : (sanitize (s.map some)).mapM id = some s := by
  have hnone : ([7, 8, 10].find? fun i ↦ (s.map some)[i]? = some none) = none := by
    rw [List.find?_eq_none]
    intro i _
    simp
  have hmapM : ∀ s : List Char, (s.map some).mapM id = some s := by
    intro s
    induction s with
    | nil => rfl
    | cons c s ih => simp [ih]
  rw [sanitize, hnone, hmapM]

/-- **A date and time in a zone of whole minutes is read back.** -/
theorem fromisoformat_isoformat {d : ZonedDateTime} {minutes : ℤ} (h : minutes.natAbs < 1440)
    (hzone : d.tzinfo = some (.ofMinutes minutes h)) :
    fromisoformat ((isoformat d).map some) = some d := by
  obtain ⟨⟨f, hf⟩, tzinfo⟩ := d
  obtain rfl : tzinfo = _ := hzone
  have hlength : 10 < (formatDate f ++
      'T' :: (formatTime f ++ formatOffset (.ofMinutes minutes h))).length := by
    rw [List.length_append, length_formatDate, List.length_cons]
    omega
  have hlong : ¬ ((isoformat ⟨⟨f, hf⟩, some (.ofMinutes minutes h)⟩).map some).length < 7 := by
    rw [List.length_map]
    exact fun hlt ↦ absurd (hlength.trans hlt) (by decide)
  have hsplit : (formatDate f ++ 'T' :: (formatTime f ++ formatOffset (.ofMinutes minutes h))).take
      10 = formatDate f := List.take_left' (length_formatDate f)
  have hrest : (formatDate f ++ 'T' :: (formatTime f ++ formatOffset (.ofMinutes minutes h))).drop
      11 = formatTime f ++ formatOffset (.ofMinutes minutes h) := by
    rw [List.append_cons]
    exact List.drop_left' (by rw [List.length_append, length_formatDate]; rfl)
  rw [fromisoformat, if_neg hlong, mapM_sanitize, isoformat]
  simp only [Option.map_some, Option.getD_some, Option.bind_eq_bind, findSeparator_formatDate,
    Option.bind_some, hsplit, parseDate_formatDate hf, hrest, if_neg hlength.not_ge,
    parseTime_formatTime hf minutes h]
  exact dif_pos hf

end Chatterbox.Isoformat
