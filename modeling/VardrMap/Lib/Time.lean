import VardrMap.Lib.Text
import VardrMap.Lib.Json

/-!
# Dates with an optional UTC offset

A `DateTime` is a clock face in microseconds since the first day of year 1, aware when
it carries a UTC offset and naive when it does not. The instant of a naive value is
read as if its clock face were UTC. `stamp` writes an instant with whole seconds and
`timestamp` reads such a text back; `timestamp_stamp` says what the pair loses.
-/
namespace Lib

/-- Microseconds from the first day of year 1 to the end of year 9999. -/
def maxWall : ℕ := 3652059 * 86400 * 1000000

/-- A date and time of day, and its UTC offset in microseconds when it is aware. -/
structure DateTime where
  wall : ℕ
  offset : Option ℤ
  wall_lt : wall < maxWall
  deriving DecidableEq

namespace DateTime

/-- `value.tzinfo is not None`. -/
def aware (t : DateTime) : Bool := t.offset.isSome

/-- The instant in microseconds of UTC; a naive value is taken as UTC. -/
def instant (t : DateTime) : ℤ := t.wall - t.offset.getD 0

/-- Equality of values: of instants between aware values, of clock faces between naive
ones. -/
def pyEq (s t : DateTime) : Bool := s.aware == t.aware && s.instant == t.instant

/-- The value with this clock face, refused outside the calendar. -/
def ofWall (wall : ℤ) (offset : Option ℤ) : Except Exn DateTime :=
  if h : wall.toNat < maxWall then
    if 0 ≤ wall then .ok ⟨wall.toNat, offset, h⟩ else .error .overflowError
  else .error .overflowError

/-- `value + timedelta(microseconds=d)`. -/
def plus (t : DateTime) (d : ℤ) : Except Exn DateTime := ofWall (t.wall + d) t.offset

/-- `max(a, b)` of aware values, the first when they are the same instant. -/
def later (a b : DateTime) : DateTime := if a.instant < b.instant then b else a

/-- `value.astimezone(utc)`. -/
def utc (t : DateTime) : Except Exn DateTime := ofWall t.instant (some 0)

theorem ofWall_eq_ok {wall : ℤ} {offset : Option ℤ} {t : DateTime}
    (h : ofWall wall offset = .ok t) : (t.wall : ℤ) = wall ∧ t.offset = offset := by
  unfold ofWall at h
  split at h
  · split at h
    · rename_i hw
      obtain rfl := Except.ok.inj h
      exact ⟨Int.toNat_of_nonneg hw, rfl⟩
    · simp at h
  · simp at h

theorem instant_plus {t u : DateTime} {d : ℤ} (h : t.plus d = .ok u) :
    u.instant = t.instant + d := by
  obtain ⟨hw, ho⟩ := ofWall_eq_ok h
  rw [instant, instant, ho, hw]
  omega

theorem instant_utc {t u : DateTime} (h : t.utc = .ok u) :
    u.instant = t.instant ∧ u.offset = some 0 := by
  obtain ⟨hw, ho⟩ := ofWall_eq_ok h
  exact ⟨by rw [instant, ho, hw]; simp, ho⟩

theorem instant_later (a b : DateTime) : (later a b).instant = max a.instant b.instant := by
  unfold later
  split <;> omega

end DateTime

/-! ## The proleptic Gregorian calendar

Days are counted from the first day of year 1, which is day 0. -/
namespace Calendar

def isLeap (year : ℕ) : Bool := year % 4 == 0 && (year % 100 != 0 || year % 400 == 0)

/-- Days before the first day of a year. -/
def daysBeforeYear (year : ℕ) : ℕ :=
  (year - 1) * 365 + (year - 1) / 4 - (year - 1) / 100 + (year - 1) / 400

/-- Days of the year before the first day of a month. -/
def daysBeforeMonth (leap : Bool) (month : ℕ) : ℕ :=
  [0, 0, 31, 59, 90, 120, 151, 181, 212, 243, 273, 304, 334].getD month 365 +
    if leap && 2 < month then 1 else 0

def daysInMonth (leap : Bool) (month : ℕ) : ℕ :=
  if month == 2 && leap then 29
  else [0, 31, 28, 31, 30, 31, 30, 31, 31, 30, 31, 30, 31].getD month 0

/-- The day number of a date. -/
def ordinal (year month day : ℕ) : ℕ :=
  daysBeforeYear year + daysBeforeMonth (isLeap year) month + day - 1

/-- The year of a day number, and the day's number in that year. -/
def yearOf (n : ℕ) : ℕ × ℕ :=
  let n400 := n / 146097
  let r400 := n % 146097
  let n100 := r400 / 36524
  let r100 := r400 % 36524
  let n4 := r100 / 1461
  let r4 := r100 % 1461
  let n1 := r4 / 365
  let year := n400 * 400 + n100 * 100 + n4 * 4 + n1 + 1
  if n1 == 4 || n100 == 4 then (year - 1, 365) else (year, r4 % 365)

/-- The month and day of a day of the year: the estimate `(d + 50) >> 5`, corrected. -/
def monthOf (leap : Bool) (d : ℕ) : ℕ × ℕ :=
  let month := (d + 50) / 32
  let preceding := daysBeforeMonth leap month
  if d < preceding then (month - 1, d - (preceding - daysInMonth leap (month - 1)) + 1)
  else (month, d - preceding + 1)

/-- The year, month and day of a day number. -/
def date (n : ℕ) : ℕ × ℕ × ℕ :=
  let (year, d) := yearOf n
  let (month, day) := monthOf (isLeap year) d
  (year, month, day)

/-- The days before a year in whole cycles of 400, 100, 4 and single years. -/
theorem daysBeforeYear_cycles (a : ℕ) {b c d : ℕ} (hb : b ≤ 3) (hc : c ≤ 24) (hd : d ≤ 3) :
    daysBeforeYear (a * 400 + b * 100 + c * 4 + d + 1) =
      a * 146097 + b * 36524 + c * 1461 + d * 365 := by
  simp only [daysBeforeYear, Nat.add_sub_cancel]
  have h4 : (a * 400 + b * 100 + c * 4 + d) / 4 = a * 100 + b * 25 + c := by omega
  have h100 : (a * 400 + b * 100 + c * 4 + d) / 100 = a * 4 + b := by omega
  have h400 : (a * 400 + b * 100 + c * 4 + d) / 400 = a := by omega
  omega

/-- Every day number lies in whole cycles, or is the last day of a longer cycle. -/
theorem yearOf_cases (n : ℕ) : ∃ a b c d e, b ≤ 3 ∧ c ≤ 24 ∧ d ≤ 3 ∧
    n = a * 146097 + b * 36524 + c * 1461 + d * 365 + e ∧
    yearOf n = (a * 400 + b * 100 + c * 4 + d + 1, e) ∧
    (e < 365 ∨ e = 365 ∧ d = 3 ∧ (c < 24 ∨ b = 3)) := by
  by_cases h100 : n % 146097 / 36524 = 4
  · refine ⟨n / 146097, 3, 24, 3, 365, by omega, by omega, by omega, by omega, ?_,
      .inr ⟨rfl, rfl, .inr rfl⟩⟩
    simp only [yearOf, h100, beq_self_eq_true, Bool.or_true, if_true, Prod.mk.injEq, and_true]
    omega
  by_cases h1 : n % 146097 % 36524 % 1461 / 365 = 4
  · refine ⟨n / 146097, n % 146097 / 36524, n % 146097 % 36524 / 1461, 3, 365, by omega, by omega,
      by omega, by omega, ?_, .inr ⟨rfl, rfl, .inl (by omega)⟩⟩
    simp only [yearOf, h1, beq_self_eq_true, Bool.true_or, if_true, Prod.mk.injEq, and_true]
    omega
  · refine ⟨n / 146097, n % 146097 / 36524, n % 146097 % 36524 / 1461,
      n % 146097 % 36524 % 1461 / 365, n % 146097 % 36524 % 1461 % 365, by omega, by omega,
      by omega, by omega, ?_, .inl (by omega)⟩
    simp [yearOf, h1, h100]

/-- The first day of the year of `n`, and the day's number in the year, add up to `n`. -/
theorem daysBeforeYear_yearOf (n : ℕ) : daysBeforeYear (yearOf n).1 + (yearOf n).2 = n := by
  obtain ⟨a, b, c, d, e, hb, hc, hd, hn, hy, -⟩ := yearOf_cases n
  rw [hy, daysBeforeYear_cycles a hb hc hd, hn]

theorem isLeap_iff (year : ℕ) :
    isLeap year = true ↔ year % 4 = 0 ∧ (year % 100 ≠ 0 ∨ year % 400 = 0) := by
  simp [isLeap]

/-- The day of the year fits the year's length. -/
theorem yearOf_lt (n : ℕ) : (yearOf n).2 < 365 + if isLeap (yearOf n).1 then 1 else 0 := by
  obtain ⟨a, b, c, d, e, hb, hc, hd, -, hy, he⟩ := yearOf_cases n
  rw [hy]
  rcases he with he | ⟨rfl, rfl, hlast⟩
  · simp only
    split <;> omega
  · have hl : isLeap (a * 400 + b * 100 + c * 4 + 3 + 1) = true := by
      rw [isLeap_iff]
      omega
    simp [hl]

/-- What the month table gives on every day of a year. -/
theorem monthOf_spec : ∀ leap : Bool, ∀ d < 365 + if leap then 1 else 0,
    1 ≤ (monthOf leap d).1 ∧ (monthOf leap d).1 ≤ 12 ∧ 1 ≤ (monthOf leap d).2 ∧
      (monthOf leap d).2 ≤ daysInMonth leap (monthOf leap d).1 ∧
        daysBeforeMonth leap (monthOf leap d).1 + (monthOf leap d).2 = d + 1 := by
  decide +kernel

/-- The date of a day number is a date of the calendar, and names that day. -/
theorem ordinal_date (n : ℕ) : ordinal (date n).1 (date n).2.1 (date n).2.2 = n := by
  have hy := daysBeforeYear_yearOf n
  obtain ⟨-, -, -, -, hm⟩ := monthOf_spec (isLeap (yearOf n).1) (yearOf n).2 (yearOf_lt n)
  simp only [ordinal, date]
  omega

theorem date_bounds (n : ℕ) : 1 ≤ (date n).2.1 ∧ (date n).2.1 ≤ 12 ∧ 1 ≤ (date n).2.2 ∧
    (date n).2.2 ≤ daysInMonth (isLeap (date n).1) (date n).2.1 := by
  obtain ⟨h1, h2, h3, h4, -⟩ := monthOf_spec (isLeap (yearOf n).1) (yearOf n).2 (yearOf_lt n)
  exact ⟨h1, h2, h3, h4⟩

theorem daysInMonth_le (leap : Bool) {month : ℕ} (h : month ≤ 12) :
    daysInMonth leap month ≤ 31 := by
  revert leap month
  decide

/-- The days of four-digit years. -/
theorem year_lt_of_lt {n : ℕ} (h : n < 3652059) : (date n).1 < 10000 := by
  obtain ⟨a, b, c, d, e, hb, hc, hd, hn, hy, he⟩ := yearOf_cases n
  have : (date n).1 = a * 400 + b * 100 + c * 4 + d + 1 := congrArg Prod.fst hy
  omega

end Calendar

/-! ## Texts with whole seconds -/
namespace DateTime

def digit (n : ℕ) : Char := Char.ofNat (48 + n % 10)

def twoDigits (n : ℕ) : Text := [digit (n / 10), digit n]

/-- `%Y`, which the platform does not pad. -/
def yearText (year : ℕ) : Text :=
  if 1000 ≤ year then [digit (year / 1000), digit (year / 100), digit (year / 10), digit year]
  else if 100 ≤ year then [digit (year / 100), digit (year / 10), digit year]
  else if 10 ≤ year then [digit (year / 10), digit year]
  else [digit year]

/-- `strftime("%Y-%m-%dT%H:%M:%SZ")` of a count of seconds. -/
def clockText (s : ℕ) : Text :=
  let d := Calendar.date (s / 86400)
  yearText d.1 ++ '-' :: twoDigits d.2.1 ++ '-' :: twoDigits d.2.2 ++
    'T' :: twoDigits (s % 86400 / 3600) ++ ':' :: twoDigits (s % 3600 / 60) ++
    ':' :: twoDigits (s % 60) ++ ['Z']

/-- `value.astimezone(utc)` written with whole seconds; a date that leaves the calendar
is refused. -/
def stamp (t : DateTime) : Except Exn Text :=
  if 0 ≤ t.instant ∧ t.instant < maxWall then .ok (clockText (t.instant.toNat / 1000000))
  else .error .overflowError

variable [Unicode]

/-- The number two digits write. -/
def twoDigits? (c d : Char) : Option ℕ := do
  return 10 * (← Unicode.decimal c) + (← Unicode.decimal d)

/-- The month digits that the date reader accepts. -/
def monthDigits (c d : Char) : Bool :=
  (c == '0' && '1' ≤ d && d ≤ '9') || (c == '1' && '0' ≤ d && d ≤ '2')

/-- The day digits; after `1` and `2` any decimal digit may follow. -/
def dayDigits (c d : Char) : Bool :=
  (c == '0' && '1' ≤ d && d ≤ '9') || c == '1' || c == '2' || (c == '3' && '0' ≤ d && d ≤ '1')

def hourDigits (c d : Char) : Bool :=
  c == '0' || c == '1' || (c == '2' && '0' ≤ d && d ≤ '3')

/-- Minutes and seconds; a second of 60 or 61 is read and then refused. -/
def sixtyDigits (c : Char) : Bool := '0' ≤ c && c ≤ '5'

/-- The seconds of a text of the fixed shape, `none` when it is refused. -/
def seconds? : Text → Option ℕ
  | [y1, y2, y3, y4, '-', m1, m2, '-', d1, d2, 'T', h1, h2, ':', n1, n2, ':', s1, s2, 'Z'] => do
    let year := 100 * (← twoDigits? y1 y2) + (← twoDigits? y3 y4)
    let month ← twoDigits? m1 m2
    let day ← twoDigits? d1 d2
    let hour ← twoDigits? h1 h2
    let minute ← twoDigits? n1 n2
    let second ← twoDigits? s1 s2
    if monthDigits m1 m2 && dayDigits d1 d2 && hourDigits h1 h2 && sixtyDigits n1 &&
        sixtyDigits s1 && 1 ≤ year && day ≤ Calendar.daysInMonth (Calendar.isLeap year) month then
      some (Calendar.ordinal year month day * 86400 + hour * 3600 + minute * 60 + second)
    else none
  | _ => none

/-- `strptime` of the fixed shape, as an aware value in UTC. -/
def timestamp (text : Text) : Option DateTime :=
  match seconds? text with
  | some s => if h : s * 1000000 < maxWall then some ⟨s * 1000000, some 0, h⟩ else none
  | none => none

/-- What a read date is. -/
theorem timestamp_eq_some {text : Text} {u : DateTime} (h : timestamp text = some u) :
    ∃ s, seconds? text = some s ∧ u.wall = s * 1000000 ∧ u.offset = some 0 := by
  unfold timestamp at h
  split at h
  · rename_i s hs
    split at h
    · obtain rfl := Option.some.inj h
      exact ⟨s, hs, rfl, rfl⟩
    · simp at h
  · simp at h

theorem decimal_digit (n : ℕ) : Unicode.decimal (digit n) = some (n % 10) := by
  have hall : ∀ k < 10, isAscii (digit k) = true ∧ (digit k).isDigit = true ∧
      (digit k).toNat - 48 = k := by decide
  obtain ⟨ha, hd, hv⟩ := hall (n % 10) (Nat.mod_lt _ (by decide))
  have hn : digit (n % 10) = digit n := by simp [digit]
  rw [hn] at ha hd hv
  rw [Unicode.decimal_ascii _ ha, if_pos hd, hv]

theorem twoDigits?_digit {n : ℕ} (h : n < 100) :
    twoDigits? (digit (n / 10)) (digit n) = some n := by
  have h' : 10 * (n / 10 % 10) + n % 10 = n := by omega
  simp [twoDigits?, decimal_digit, h']

omit [Unicode] in
theorem monthDigits_digit : ∀ m ≤ 12, 1 ≤ m → monthDigits (digit (m / 10)) (digit m) = true := by
  decide

omit [Unicode] in
theorem dayDigits_digit : ∀ d ≤ 31, 1 ≤ d → dayDigits (digit (d / 10)) (digit d) = true := by
  decide

omit [Unicode] in
theorem hourDigits_digit : ∀ h < 24, hourDigits (digit (h / 10)) (digit h) = true := by
  decide

omit [Unicode] in
theorem sixtyDigits_digit : ∀ m < 60, sixtyDigits (digit (m / 10)) = true := by
  decide

/-- Reading back the text of a count of seconds gives that count; before year 1000 the
unpadded year is refused. -/
theorem seconds?_clockText {s u : ℕ} (hs : s < 3652059 * 86400)
    (h : seconds? (clockText s) = some u) : u = s := by
  have hday : s / 86400 < 3652059 := by omega
  obtain ⟨hm1, hm2, hd1, hd2⟩ := Calendar.date_bounds (s / 86400)
  have hy := Calendar.year_lt_of_lt hday
  have hord := Calendar.ordinal_date (s / 86400)
  revert hm1 hm2 hd1 hd2 hy hord h
  simp only [clockText]
  generalize (Calendar.date (s / 86400)).1 = year
  generalize (Calendar.date (s / 86400)).2.1 = month
  generalize (Calendar.date (s / 86400)).2.2 = day
  intro h hm1 hm2 hd1 hd2 hy hord
  have hd31 := hd2.trans (Calendar.daysInMonth_le _ hm2)
  by_cases hk : 1000 ≤ year
  · have hyear : 100 * (10 * (year / 1000 % 10) + year / 100 % 10) +
        (10 * (year / 10 % 10) + year % 10) = year := by omega
    have htwo : twoDigits? (digit (year / 1000)) (digit (year / 100)) =
        some (10 * (year / 1000 % 10) + year / 100 % 10) := by
      simp [twoDigits?, decimal_digit]
    have htwo' : twoDigits? (digit (year / 10)) (digit year) =
        some (10 * (year / 10 % 10) + year % 10) := by
      simp [twoDigits?, decimal_digit]
    have hpos : 1 ≤ year := by omega
    simp only [yearText, hk, if_true, twoDigits, List.cons_append, List.nil_append, seconds?, htwo,
      htwo', twoDigits?_digit (show month < 100 by omega),
      twoDigits?_digit (show day < 100 by omega),
      twoDigits?_digit (show s % 86400 / 3600 < 100 by omega),
      twoDigits?_digit (show s % 3600 / 60 < 100 by omega),
      twoDigits?_digit (show s % 60 < 100 by omega), bind, Option.bind, hyear,
      monthDigits_digit month hm2 hm1, dayDigits_digit day hd31 hd1,
      hourDigits_digit (s % 86400 / 3600) (by omega), sixtyDigits_digit (s % 3600 / 60) (by omega),
      sixtyDigits_digit (s % 60) (by omega), hpos, hd2, decide_true, Bool.and_self,
      Option.some.injEq, hord] at h
    omega
  · have hshort : (yearText year ++ '-' :: twoDigits month ++ '-' :: twoDigits day ++
        'T' :: twoDigits (s % 86400 / 3600) ++ ':' :: twoDigits (s % 3600 / 60) ++
        ':' :: twoDigits (s % 60) ++ ['Z']).length < 20 := by
      have hlen : (yearText year).length < 4 := by
        simp only [yearText, if_neg hk]
        split
        · simp
        · split <;> simp
      simp only [twoDigits, List.length_append, List.length_cons, List.length_nil]
      omega
    unfold seconds? at h
    split at h
    · rename_i heq
      rw [heq] at hshort
      simp at hshort
    · simp at h

/-- Writing and reading a date keeps its whole seconds. -/
theorem timestamp_stamp {t u : DateTime} {text : Text} (hs : stamp t = .ok text)
    (hu : timestamp text = some u) :
    u.instant ≤ t.instant ∧ t.instant < u.instant + 1000000 ∧ u.instant % 1000000 = 0 := by
  unfold stamp at hs
  split at hs
  swap
  · simp at hs
  rename_i hrange
  obtain rfl := Except.ok.inj hs
  obtain ⟨s, hsec, hwall, hoff⟩ := timestamp_eq_some hu
  have hmax : (maxWall : ℤ) = 3652059 * 86400 * 1000000 := rfl
  have hs' : s = t.instant.toNat / 1000000 := seconds?_clockText (by omega) hsec
  have hu' : u.instant = s * 1000000 := by simp [instant, hwall, hoff]
  omega

/-- A date that was read is aware, in UTC, and has whole seconds. -/
theorem timestamp_whole {text : Text} {u : DateTime} (h : timestamp text = some u) :
    u.offset = some 0 ∧ u.instant % 1000000 = 0 := by
  obtain ⟨s, -, hwall, hoff⟩ := timestamp_eq_some h
  have hu : u.instant = s * 1000000 := by simp [instant, hwall, hoff]
  exact ⟨hoff, by omega⟩

end DateTime
end Lib
