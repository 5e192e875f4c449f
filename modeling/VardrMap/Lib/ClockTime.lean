import VardrMap.Lib.Time

/-!
# Dates and times of day, and their spellings

A `ClockTime` is a second of a day of the calendar. It has one text of ASCII digits, of
fixed length; the date reader accepts that text, and texts in which other decimal digits
of the same values stand at the places that `Spells` leaves open. `seconds?_eq_some_iff`
says that it accepts nothing else.
-/
namespace Lib

namespace Calendar

/-- A year has 365 days, and a leap year one more. -/
theorem daysBeforeYear_succ {y : ℕ} (hy : 1 ≤ y) :
    daysBeforeYear (y + 1) = daysBeforeYear y + (365 + if isLeap y then 1 else 0) := by
  obtain ⟨k, rfl⟩ : ∃ k, y = k + 1 := ⟨y - 1, by omega⟩
  have hleap := isLeap_iff (k + 1)
  simp only [daysBeforeYear, Nat.add_sub_cancel, Nat.succ_div, Nat.dvd_iff_mod_eq_zero]
  have hle : k / 100 ≤ k / 4 := by omega
  have h100 : (k + 1) % 100 = 0 → (k + 1) % 4 = 0 := by omega
  have h400 : (k + 1) % 400 = 0 → (k + 1) % 100 = 0 := by omega
  generalize k / 4 = a at hle
  generalize k / 100 = b at hle
  generalize k / 400 = c
  by_cases hc : (k + 1) % 400 = 0
  · have hl : isLeap (k + 1) = true := hleap.mpr ⟨h100 (h400 hc), .inr hc⟩
    simp only [h100 (h400 hc), h400 hc, hc, hl, if_true]
    omega
  by_cases hb : (k + 1) % 100 = 0
  · have hl : isLeap (k + 1) = false := by simp [isLeap, hb, hc]
    simp only [h100 hb, hb, hc, hl, if_true, if_false, Bool.false_eq_true]
    omega
  by_cases ha : (k + 1) % 4 = 0
  · have hl : isLeap (k + 1) = true := hleap.mpr ⟨ha, .inl hb⟩
    simp only [ha, hb, hc, hl, if_true, if_false]
    omega
  · have hl : isLeap (k + 1) = false := by simp [isLeap, ha]
    simp only [ha, hb, hc, hl, if_false, Bool.false_eq_true]
    omega

/-- A later year begins after all days of an earlier one. -/
theorem daysBeforeYear_lt {y y' : ℕ} (hy : 1 ≤ y) (h : y < y') :
    daysBeforeYear y + (365 + if isLeap y then 1 else 0) ≤ daysBeforeYear y' := by
  induction y', h using Nat.le_induction with
  | base => exact (daysBeforeYear_succ hy).ge
  | succ n hn ih =>
    have hn' : 1 ≤ n := hy.trans (Nat.le_of_lt hn)
    have hstep := daysBeforeYear_succ hn'
    omega

/-- The year of a day of that year. -/
theorem yearOf_daysBeforeYear {y e : ℕ} (hy : 1 ≤ y)
    (he : e < 365 + if isLeap y then 1 else 0) : yearOf (daysBeforeYear y + e) = (y, e) := by
  have hsum := daysBeforeYear_yearOf (daysBeforeYear y + e)
  have hlt := yearOf_lt (daysBeforeYear y + e)
  have hpos : 1 ≤ (yearOf (daysBeforeYear y + e)).1 := by
    obtain ⟨a, b, c, d, e', -, -, -, -, hn, -⟩ := yearOf_cases (daysBeforeYear y + e)
    rw [hn]
    exact Nat.le_add_left ..
  rcases lt_trichotomy (yearOf (daysBeforeYear y + e)).1 y with h | h | h
  · have := daysBeforeYear_lt hpos h
    omega
  · rw [h] at hsum
    exact Prod.ext h (by simpa using hsum)
  · have := daysBeforeYear_lt hy h
    omega

/-- The month table on every day of the calendar. -/
theorem monthOf_daysBeforeMonth : ∀ leap : Bool, ∀ month < 13, ∀ day < 32,
    1 ≤ month ∧ 1 ≤ day ∧ day ≤ daysInMonth leap month →
    daysBeforeMonth leap month + day - 1 < 365 + (if leap then 1 else 0) ∧
      monthOf leap (daysBeforeMonth leap month + day - 1) = (month, day) := by
  decide +kernel

/-- The day number of a date of the calendar is the number of that date only. -/
theorem date_ordinal {y m d : ℕ} (hy : 1 ≤ y) (hm : 1 ≤ m) (hm' : m ≤ 12) (hd : 1 ≤ d)
    (hd' : d ≤ daysInMonth (isLeap y) m) : date (ordinal y m d) = (y, m, d) := by
  have hd31 := hd'.trans (daysInMonth_le _ hm')
  obtain ⟨hlt, hmonth⟩ := monthOf_daysBeforeMonth (isLeap y) m (by omega) d (by omega) ⟨hm, hd, hd'⟩
  have hord : ordinal y m d = daysBeforeYear y + (daysBeforeMonth (isLeap y) m + d - 1) := by
    unfold ordinal
    omega
  simp only [date, hord, yearOf_daysBeforeYear hy hlt, hmonth]

/-- The days up to the end of year 9999. -/
theorem ordinal_lt {y m d : ℕ} (hy : 1 ≤ y) (hy' : y < 10000) (hm : 1 ≤ m) (hm' : m ≤ 12)
    (hd : 1 ≤ d) (hd' : d ≤ daysInMonth (isLeap y) m) : ordinal y m d < 3652059 := by
  have hd31 := hd'.trans (daysInMonth_le _ hm')
  obtain ⟨hlt, -⟩ := monthOf_daysBeforeMonth (isLeap y) m (by omega) d (by omega) ⟨hm, hd, hd'⟩
  have hyear := daysBeforeYear_lt hy hy'
  have hlast : daysBeforeYear 10000 = 3652059 := rfl
  unfold ordinal
  omega

end Calendar

open DateTime

/-- A second of a day of the calendar. -/
structure ClockTime where
  year : ℕ
  month : ℕ
  day : ℕ
  hour : ℕ
  minute : ℕ
  second : ℕ
  year_pos : 1 ≤ year
  year_lt : year < 10000
  month_pos : 1 ≤ month
  month_le : month ≤ 12
  day_pos : 1 ≤ day
  day_le : day ≤ Calendar.daysInMonth (Calendar.isLeap year) month
  hour_lt : hour < 24
  minute_lt : minute < 60
  second_lt : second < 60

namespace ClockTime

def fourDigits (n : ℕ) : Text := twoDigits (n / 100) ++ twoDigits n

/-- What follows the year in a text. -/
def afterYear (c : ClockTime) : Text :=
  '-' :: twoDigits c.month ++ '-' :: twoDigits c.day ++
    'T' :: twoDigits c.hour ++ ':' :: twoDigits c.minute ++ ':' :: twoDigits c.second ++ ['Z']

/-- `YYYY-MM-DDTHH:MM:SSZ`. -/
def text (c : ClockTime) : Text := fourDigits c.year ++ c.afterYear

/-- Seconds since the first day of year 1. -/
def seconds (c : ClockTime) : ℕ :=
  Calendar.ordinal c.year c.month c.day * 86400 + c.hour * 3600 + c.minute * 60 + c.second

theorem day_le_31 (c : ClockTime) : c.day ≤ 31 :=
  c.day_le.trans (Calendar.daysInMonth_le _ c.month_le)

theorem seconds_lt (c : ClockTime) : c.seconds < 3652059 * 86400 := by
  have hord := Calendar.ordinal_lt c.year_pos c.year_lt c.month_pos c.month_le c.day_pos c.day_le
  have hh := c.hour_lt
  have hm := c.minute_lt
  have hs := c.second_lt
  unfold seconds
  omega

/-- The moment in UTC. -/
def moment (c : ClockTime) : DateTime :=
  ⟨c.seconds * 1000000, some 0, by
    have h := c.seconds_lt
    have hmax : maxWall = 3652059 * 86400 * 1000000 := rfl
    omega⟩

/-- The second of the calendar with this number. -/
theorem exists_seconds_eq {n : ℕ} (h : n < 3652059 * 86400) : ∃ c : ClockTime, c.seconds = n ∧
    c.year = (Calendar.date (n / 86400)).1 := by
  obtain ⟨hm, hm', hd, hd'⟩ := Calendar.date_bounds (n / 86400)
  have hpos : 1 ≤ (Calendar.date (n / 86400)).1 := by
    obtain ⟨a, b, c, d, e, -, -, -, -, hn, -⟩ := Calendar.yearOf_cases (n / 86400)
    have : (Calendar.date (n / 86400)).1 = a * 400 + b * 100 + c * 4 + d + 1 := congrArg Prod.fst hn
    omega
  refine ⟨⟨_, _, _, n % 86400 / 3600, n % 3600 / 60, n % 60, hpos,
    Calendar.year_lt_of_lt (by omega), hm, hm', hd, hd', by omega, by omega, by omega⟩, ?_, rfl⟩
  simp only [seconds, Calendar.ordinal_date]
  omega

/-- The text of a count of seconds on a platform that writes years in this way. -/
def clockTextWith (yearText : ℕ → Text) (s : ℕ) : Text :=
  let d := Calendar.date (s / 86400)
  yearText d.1 ++ '-' :: twoDigits d.2.1 ++ '-' :: twoDigits d.2.2 ++
    'T' :: twoDigits (s % 86400 / 3600) ++ ':' :: twoDigits (s % 3600 / 60) ++
    ':' :: twoDigits (s % 60) ++ ['Z']

theorem isAscii_digit (n : ℕ) : isAscii (digit n) = true := by
  have hall : ∀ k < 10, isAscii (Char.ofNat (48 + k)) = true := by decide
  exact hall (n % 10) (Nat.mod_lt _ (by decide))

/-- The text of a time is ASCII. -/
theorem isAscii_text (c : ClockTime) : c.text.all isAscii = true := by
  simp only [text, fourDigits, twoDigits, afterYear, List.cons_append, List.nil_append,
    List.all_cons, List.all_nil, isAscii_digit]
  rfl

theorem clockTextWith_yearText : clockTextWith yearText = clockText := rfl

/-- The text that the count of seconds is written as. -/
theorem clockTextWith_seconds (yearText : ℕ → Text) (c : ClockTime) :
    clockTextWith yearText c.seconds = yearText c.year ++ c.afterYear := by
  have hh := c.hour_lt
  have hm := c.minute_lt
  have hs := c.second_lt
  have hday : c.seconds / 86400 = Calendar.ordinal c.year c.month c.day := by
    unfold seconds
    omega
  have hhour : c.seconds % 86400 / 3600 = c.hour := by
    unfold seconds
    omega
  have hminute : c.seconds % 3600 / 60 = c.minute := by
    unfold seconds
    omega
  have hsecond : c.seconds % 60 = c.second := by
    unfold seconds
    omega
  rw [clockTextWith, hday, hhour, hminute, hsecond, Calendar.date_ordinal c.year_pos c.month_pos
    c.month_le c.day_pos c.day_le, afterYear]
  simp only [List.append_assoc]

/-- A year without padding is written like a padded one from year 1000 on only. -/
theorem yearText_eq_fourDigits {year : ℕ} : yearText year = fourDigits year ↔ 1000 ≤ year := by
  constructor
  · intro h
    by_contra hk
    have hlen := congrArg List.length h
    simp only [yearText, if_neg hk, fourDigits, twoDigits] at hlen
    split at hlen
    · simp at hlen
    · split at hlen <;> simp at hlen
  · intro hk
    have h4 : year / 100 / 10 = year / 1000 := Nat.div_div_eq_div_mul ..
    rw [yearText, if_pos hk, fourDigits, twoDigits, twoDigits, h4]
    rfl

section Spelling
variable [Unicode]

/-- Two digits that write a number below 100. -/
def Writes (c d : Char) (n : ℕ) : Prop :=
  Unicode.decimal c = some (n / 10) ∧ Unicode.decimal d = some (n % 10)

/-- A text that the date reader takes for a second of the calendar: the digits of the year
may come from any script, and so may the last digit of a day after 1 or 2, of an hour after 0
or 1, of a minute and of a second. -/
def Spells (c : ClockTime) (s : Text) : Prop :=
  ∃ y1 y2 y3 y4 d h m s', s = [y1, y2, y3, y4, '-', digit (c.month / 10), digit c.month, '-',
      digit (c.day / 10), d, 'T', digit (c.hour / 10), h, ':', digit (c.minute / 10), m, ':',
      digit (c.second / 10), s', 'Z'] ∧
    Writes y1 y2 (c.year / 100) ∧ Writes y3 y4 (c.year % 100) ∧
    Unicode.decimal d = some (c.day % 10) ∧
    (d = digit c.day ∨ c.day / 10 = 1 ∨ c.day / 10 = 2) ∧
    Unicode.decimal h = some (c.hour % 10) ∧ (h = digit c.hour ∨ c.hour < 20) ∧
    Unicode.decimal m = some (c.minute % 10) ∧ Unicode.decimal s' = some (c.second % 10)

/-- The ASCII text is a spelling. -/
theorem spells_text (c : ClockTime) : c.Spells c.text := by
  have hy := c.year_lt
  refine ⟨digit (c.year / 100 / 10), digit (c.year / 100), digit (c.year / 10), digit c.year,
    digit c.day, digit c.hour, digit c.minute, digit c.second, rfl, ⟨?_, decimal_digit _⟩,
    ⟨?_, ?_⟩, decimal_digit _, .inl rfl, decimal_digit _, .inl rfl, decimal_digit _,
    decimal_digit _⟩
  · rw [decimal_digit, Nat.mod_eq_of_lt (by omega)]
  · rw [decimal_digit]
    congr 1
    omega
  · rw [decimal_digit]
    congr 1
    omega

/-- An ASCII digit is the digit of its value. -/
theorem eq_digit {c : Char} {n : ℕ} (ha : isAscii c = true) (h : Unicode.decimal c = some n) :
    c = digit n := by
  rw [Unicode.decimal_ascii c ha] at h
  split at h
  · rename_i hd
    obtain rfl := Option.some.inj h
    simp only [Char.isDigit, Bool.and_eq_true, decide_eq_true_eq] at hd
    have hlo : 48 ≤ c.toNat := UInt32.le_iff_toNat_le.mp hd.1
    have hhi : c.toNat ≤ 57 := UInt32.le_iff_toNat_le.mp hd.2
    rw [digit, Nat.mod_eq_of_lt (by omega), Nat.add_sub_cancel' hlo, Char.ofNat_toNat]
  · simp at h

omit [Unicode] in
theorem digit_mod (n : ℕ) : digit (n % 10) = digit n := by
  simp only [digit, Nat.mod_mod]

/-- Two ASCII digits of a number. -/
theorem Writes.eq_digits {c d : Char} {n : ℕ} (h : Writes c d n) (hc : isAscii c = true)
    (hd : isAscii d = true) : c = digit (n / 10) ∧ d = digit n :=
  ⟨eq_digit hc h.1, (eq_digit hd h.2).trans (digit_mod n)⟩

theorem writes_digits {n : ℕ} (h : n < 100) : Writes (digit (n / 10)) (digit n) n :=
  ⟨by rw [decimal_digit, Nat.mod_eq_of_lt (by omega)], decimal_digit n⟩

/-- A text whose code points are ASCII spells the time in one way only. -/
theorem Spells.eq_text {c : ClockTime} {s : Text} (h : c.Spells s)
    (hs : ∀ x ∈ s, isAscii x = true) : s = c.text := by
  obtain ⟨y1, y2, y3, y4, d, h, m, s', rfl, hy, hy', hd, -, hh, -, hm, hsec⟩ := h
  have hyear := c.year_lt
  obtain ⟨rfl, rfl⟩ := hy.eq_digits (hs _ (by simp)) (hs _ (by simp))
  obtain ⟨rfl, rfl⟩ := hy'.eq_digits (hs _ (by simp)) (hs _ (by simp))
  have htens : digit (c.year % 100 / 10) = digit (c.year / 10) := by
    simp only [digit]
    congr 2
    omega
  have hones : digit (c.year % 100) = digit c.year := by
    simp only [digit]
    congr 2
    omega
  rw [eq_digit (hs _ (by simp)) hd, eq_digit (hs _ (by simp)) hh, eq_digit (hs _ (by simp)) hm,
    eq_digit (hs _ (by simp)) hsec, digit_mod, digit_mod, digit_mod, digit_mod, htens, hones]
  rfl

omit [Unicode] in
theorem isAscii_of_le {c d : Char} (h : c ≤ d) (hd : isAscii d = true) : isAscii c = true := by
  have hc : c.toNat ≤ d.toNat := UInt32.le_iff_toNat_le.mp h
  simp only [isAscii, decide_eq_true_eq] at hd ⊢
  omega

omit [Unicode] in
theorem ascii_of_monthDigits {c d : Char} (h : monthDigits c d = true) :
    isAscii c = true ∧ isAscii d = true := by
  simp only [monthDigits, Bool.or_eq_true, Bool.and_eq_true, beq_iff_eq, decide_eq_true_eq] at h
  rcases h with ⟨⟨rfl, -⟩, hd⟩ | ⟨⟨rfl, -⟩, hd⟩
  · exact ⟨rfl, isAscii_of_le hd rfl⟩
  · exact ⟨rfl, isAscii_of_le hd rfl⟩

omit [Unicode] in
theorem monthDigits_digits : ∀ n < 100,
    (monthDigits (digit (n / 10)) (digit n) = true ↔ 1 ≤ n ∧ n ≤ 12) := by
  decide +kernel

/-- The month digits the reader accepts. -/
theorem monthDigits_iff {c d : Char} {n : ℕ} (hn : n < 100) (hw : Writes c d n) :
    monthDigits c d = true ↔ c = digit (n / 10) ∧ d = digit n ∧ 1 ≤ n ∧ n ≤ 12 := by
  constructor
  · intro h
    obtain ⟨hc, hd⟩ := ascii_of_monthDigits h
    obtain ⟨rfl, rfl⟩ := hw.eq_digits hc hd
    exact ⟨rfl, rfl, (monthDigits_digits n hn).mp h⟩
  · rintro ⟨rfl, rfl, hbounds⟩
    exact (monthDigits_digits n hn).mpr hbounds

omit [Unicode] in
theorem ascii_of_dayDigits {c d : Char} (h : dayDigits c d = true) :
    isAscii c = true ∧ (isAscii d = true ∨ c = '1' ∨ c = '2') := by
  simp only [dayDigits, Bool.or_eq_true, Bool.and_eq_true, beq_iff_eq, decide_eq_true_eq] at h
  rcases h with ((⟨⟨rfl, -⟩, hd⟩ | rfl) | rfl) | ⟨⟨rfl, -⟩, hd⟩
  · exact ⟨rfl, .inl (isAscii_of_le hd rfl)⟩
  · exact ⟨rfl, .inr (.inl rfl)⟩
  · exact ⟨rfl, .inr (.inr rfl)⟩
  · exact ⟨rfl, .inl (isAscii_of_le hd rfl)⟩

omit [Unicode] in
theorem dayDigits_digits : ∀ n < 32,
    (dayDigits (digit (n / 10)) (digit n) = true ↔ 1 ≤ n) := by
  decide

/-- The day digits the reader accepts for a day of a month. -/
theorem dayDigits_iff {c d : Char} {n : ℕ} (hn : n ≤ 31) (hw : Writes c d n) :
    dayDigits c d = true ↔
      c = digit (n / 10) ∧ (d = digit n ∨ n / 10 = 1 ∨ n / 10 = 2) ∧ 1 ≤ n := by
  constructor
  · intro h
    obtain ⟨hc, hopen⟩ := ascii_of_dayDigits h
    have hfirst := eq_digit hc hw.1
    rcases hopen with hd | rfl | rfl
    · obtain ⟨rfl, rfl⟩ := hw.eq_digits hc hd
      exact ⟨rfl, .inl rfl, (dayDigits_digits n (by omega)).mp h⟩
    · have htens : 1 = n / 10 := Option.some.inj ((decimal_digit 1).symm.trans hw.1)
      exact ⟨hfirst, .inr (.inl htens.symm), by omega⟩
    · have htens : 2 = n / 10 := Option.some.inj ((decimal_digit 2).symm.trans hw.1)
      exact ⟨hfirst, .inr (.inr htens.symm), by omega⟩
  · rintro ⟨rfl, rfl | htens | htens, hpos⟩
    · exact (dayDigits_digits n (by omega)).mpr hpos
    · rw [htens]
      rfl
    · rw [htens]
      rfl

omit [Unicode] in
theorem ascii_of_hourDigits {c d : Char} (h : hourDigits c d = true) :
    isAscii c = true ∧ (isAscii d = true ∨ c = '0' ∨ c = '1') := by
  simp only [hourDigits, Bool.or_eq_true, Bool.and_eq_true, beq_iff_eq, decide_eq_true_eq] at h
  rcases h with (rfl | rfl) | ⟨⟨rfl, -⟩, hd⟩
  · exact ⟨rfl, .inr (.inl rfl)⟩
  · exact ⟨rfl, .inr (.inr rfl)⟩
  · exact ⟨rfl, .inl (isAscii_of_le hd rfl)⟩

omit [Unicode] in
theorem hourDigits_digits : ∀ n < 100,
    (hourDigits (digit (n / 10)) (digit n) = true ↔ n < 24) := by
  decide +kernel

/-- The hour digits the reader accepts. -/
theorem hourDigits_iff {c d : Char} {n : ℕ} (hn : n < 100) (hw : Writes c d n) :
    hourDigits c d = true ↔ c = digit (n / 10) ∧ (d = digit n ∨ n < 20) ∧ n < 24 := by
  constructor
  · intro h
    obtain ⟨hc, hopen⟩ := ascii_of_hourDigits h
    have hfirst := eq_digit hc hw.1
    rcases hopen with hd | rfl | rfl
    · obtain ⟨rfl, rfl⟩ := hw.eq_digits hc hd
      exact ⟨rfl, .inl rfl, (hourDigits_digits n hn).mp h⟩
    · have htens : 0 = n / 10 := Option.some.inj ((decimal_digit 0).symm.trans hw.1)
      exact ⟨hfirst, .inr (by omega), by omega⟩
    · have htens : 1 = n / 10 := Option.some.inj ((decimal_digit 1).symm.trans hw.1)
      exact ⟨hfirst, .inr (by omega), by omega⟩
  · rintro ⟨rfl, rfl | hlt, hday⟩
    · exact (hourDigits_digits n hn).mpr hday
    · have htens : n / 10 = 0 ∨ n / 10 = 1 := by omega
      rcases htens with htens | htens <;> rw [htens] <;> rfl

omit [Unicode] in
theorem sixtyDigits_digits : ∀ n < 100, (sixtyDigits (digit (n / 10)) = true ↔ n < 60) := by
  decide +kernel

/-- The first digit of a minute or a second that the reader accepts. -/
theorem sixtyDigits_iff {c d : Char} {n : ℕ} (hn : n < 100) (hw : Writes c d n) :
    sixtyDigits c = true ↔ c = digit (n / 10) ∧ n < 60 := by
  constructor
  · intro h
    have hle := h
    simp only [sixtyDigits, Bool.and_eq_true, decide_eq_true_eq] at hle
    obtain rfl := eq_digit (isAscii_of_le hle.2 rfl) hw.1
    exact ⟨rfl, (sixtyDigits_digits n hn).mp h⟩
  · rintro ⟨rfl, hlt⟩
    exact (sixtyDigits_digits n hn).mpr hlt

variable (hten : ∀ c n, Unicode.decimal c = some n → n < 10)
include hten

theorem twoDigits?_eq_some {c d : Char} {n : ℕ} :
    twoDigits? c d = some n ↔ n < 100 ∧ Writes c d n := by
  unfold twoDigits? Writes
  constructor
  · intro h
    simp only [Option.bind_eq_bind, Option.bind_eq_some_iff, Option.pure_def, Option.some.injEq] at h
    obtain ⟨a, ha, b, hb, rfl⟩ := h
    have h1 := hten c a ha
    have h2 := hten d b hb
    have hdiv : (10 * a + b) / 10 = a := by omega
    have hmod : (10 * a + b) % 10 = b := by omega
    exact ⟨by omega, by rw [ha, hdiv], by rw [hb, hmod]⟩
  · rintro ⟨-, ha, hb⟩
    rw [ha, hb]
    simp only [Option.bind_eq_bind, Option.bind_some, Option.pure_def, Option.some.injEq]
    omega

/-- The date reader accepts the spellings of the seconds of the calendar and nothing else. -/
theorem seconds?_eq_some_iff {s : Text} {n : ℕ} :
    seconds? s = some n ↔ ∃ c : ClockTime, c.Spells s ∧ c.seconds = n := by
  constructor
  · intro h
    unfold seconds? at h
    split at h
    swap
    · simp at h
    rename_i y1 y2 y3 y4 m1 m2 d1 d2 h1 h2 n1 n2 s1 s2
    simp only [Option.bind_eq_bind, Option.bind_eq_some_iff, twoDigits?_eq_some hten] at h
    obtain ⟨hundreds, ⟨hy, hwy⟩, ones, ⟨hy', hwy'⟩, month, ⟨hm, hwm⟩, day, ⟨hd, hwd⟩, hour,
      ⟨hh, hwh⟩, minute, ⟨hn, hwn⟩, second, ⟨hs, hws⟩, h⟩ := h
    split at h
    swap
    · simp at h
    rename_i hok
    simp only [Bool.and_eq_true, decide_eq_true_eq] at hok
    obtain ⟨⟨⟨⟨⟨⟨hmonth, hdays⟩, hhours⟩, hminutes⟩, hseconds⟩, hpos⟩, hday⟩ := hok
    obtain ⟨rfl, rfl, hm1, hm2⟩ := (monthDigits_iff hm hwm).mp hmonth
    have hday31 := hday.trans (Calendar.daysInMonth_le _ hm2)
    obtain ⟨rfl, hd2, hday1⟩ := (dayDigits_iff hday31 hwd).mp hdays
    obtain ⟨rfl, hh2, hhour⟩ := (hourDigits_iff hh hwh).mp hhours
    obtain ⟨rfl, hminute⟩ := (sixtyDigits_iff hn hwn).mp hminutes
    obtain ⟨rfl, hsecond⟩ := (sixtyDigits_iff hs hws).mp hseconds
    have hdiv : (100 * hundreds + ones) / 100 = hundreds := by omega
    have hmod : (100 * hundreds + ones) % 100 = ones := by omega
    refine ⟨⟨100 * hundreds + ones, month, day, hour, minute, second, hpos, by omega, hm1, hm2,
      hday1, hday, hhour, hminute, hsecond⟩, ?_, Option.some.inj h⟩
    exact ⟨y1, y2, y3, y4, d2, h2, n2, s2, rfl, by rwa [hdiv], by rwa [hmod], hwd.2, hd2, hwh.2,
      hh2, hwn.2, hws.2⟩
  · rintro ⟨c, ⟨y1, y2, y3, y4, d, h, m, s', rfl, hy, hy', hd, hd', hh, hh', hm, hs⟩, rfl⟩
    have hyear := c.year_lt
    have hmonth := c.month_le
    have hday := c.day_le_31
    have hhour := c.hour_lt
    have hminute := c.minute_lt
    have hsecond := c.second_lt
    have hwm : Writes (digit (c.month / 10)) (digit c.month) c.month :=
      writes_digits (by omega)
    have hwd : Writes (digit (c.day / 10)) d c.day := ⟨(writes_digits (by omega)).1, hd⟩
    have hwh : Writes (digit (c.hour / 10)) h c.hour := ⟨(writes_digits (by omega)).1, hh⟩
    have hwn : Writes (digit (c.minute / 10)) m c.minute := ⟨(writes_digits (by omega)).1, hm⟩
    have hws : Writes (digit (c.second / 10)) s' c.second := ⟨(writes_digits (by omega)).1, hs⟩
    have hcentury : 100 * (c.year / 100) + c.year % 100 = c.year := by omega
    simp only [seconds?, (twoDigits?_eq_some hten).mpr ⟨by omega, hy⟩,
      (twoDigits?_eq_some hten).mpr ⟨by omega, hy'⟩,
      (twoDigits?_eq_some hten).mpr ⟨by omega, hwm⟩, (twoDigits?_eq_some hten).mpr ⟨by omega, hwd⟩,
      (twoDigits?_eq_some hten).mpr ⟨by omega, hwh⟩, (twoDigits?_eq_some hten).mpr ⟨by omega, hwn⟩,
      (twoDigits?_eq_some hten).mpr ⟨by omega, hws⟩, Option.bind_eq_bind, Option.bind_some,
      hcentury, (monthDigits_iff (by omega) hwm).mpr ⟨rfl, rfl, c.month_pos, c.month_le⟩,
      (dayDigits_iff hday hwd).mpr ⟨rfl, hd', c.day_pos⟩,
      (hourDigits_iff (by omega) hwh).mpr ⟨rfl, hh', hhour⟩,
      (sixtyDigits_iff (by omega) hwn).mpr ⟨rfl, hminute⟩,
      (sixtyDigits_iff (by omega) hws).mpr ⟨rfl, hsecond⟩, c.year_pos, c.day_le, decide_true,
      Bool.and_self, if_true]
    rfl

/-- A text is read as a moment exactly when it spells a second of the calendar. -/
theorem timestamp_eq_some_iff {s : Text} {t : DateTime} :
    timestamp s = some t ↔ ∃ c : ClockTime, c.Spells s ∧ t = c.moment := by
  have hmax : maxWall = 3652059 * 86400 * 1000000 := rfl
  constructor
  · intro h
    obtain ⟨n, hn, hwall, hoff⟩ := timestamp_eq_some h
    obtain ⟨c, hc, rfl⟩ := (seconds?_eq_some_iff hten).mp hn
    refine ⟨c, hc, ?_⟩
    cases t
    simp only at hwall hoff
    subst hwall hoff
    rfl
  · rintro ⟨c, hc, rfl⟩
    have hlt := c.seconds_lt
    rw [timestamp, (seconds?_eq_some_iff hten).mpr ⟨c, hc, rfl⟩]
    exact dif_pos (by omega)

end Spelling
end ClockTime
end Lib
