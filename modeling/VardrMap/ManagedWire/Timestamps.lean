import VardrMap.Lib.ClockTime
import VardrMap.ManagedWire

/-!
# Times on the wire

A time is a text with whole seconds in UTC. The regular expression and the date reader
take any decimal digit where they only ask for one, so the text of a second of the
calendar is not its only accepted spelling: `timestamp_canonical_iff` says which texts are
accepted and written back as they are.
-/
namespace VardrMap
namespace Wire
open Lib ClockTime

/-- `%Y`, which some platforms pad to four digits. -/
def yearTextOn (pads : Bool) (year : ℕ) : Text :=
  if pads then fourDigits year else DateTime.yearText year

/-- `stamp`, on a platform that pads years or on one that does not. -/
def stampOn (pads : Bool) (value : DateTime) : Except Refusal Text := do
  require value.aware "trusted_clock_required"
  if 0 ≤ value.instant ∧ value.instant < maxWall then
    return clockTextWith (yearTextOn pads) (value.instant.toNat / 1000000)
  else .error (.raised .overflowError)

/-- The platform of the other modules does not pad. -/
theorem stampOn_false (value : DateTime) : stampOn false value = stamp value := by
  unfold stampOn stamp DateTime.stamp
  split <;> rfl

theorem yearTextOn_eq_fourDigits {pads : Bool} {year : ℕ} :
    yearTextOn pads year = fourDigits year ↔ pads = true ∨ 1000 ≤ year := by
  cases pads with
  | true => simp [yearTextOn]
  | false => simp [yearTextOn, yearText_eq_fourDigits]

theorem stampOn_moment (pads : Bool) (c : ClockTime) :
    stampOn pads c.moment = .ok (yearTextOn pads c.year ++ c.afterYear) := by
  have hlt := c.seconds_lt
  have hmax : (maxWall : ℤ) = 3652059 * 86400 * 1000000 := rfl
  have hinstant : c.moment.instant = c.seconds * 1000000 := by simp [moment, DateTime.instant]
  have hwhole : c.moment.instant.toNat / 1000000 = c.seconds := by omega
  have hrange : 0 ≤ c.moment.instant ∧ c.moment.instant < maxWall := by omega
  rw [stampOn, if_pos hrange, hwhole, clockTextWith_seconds]
  rfl

/-- A second is written as its own text exactly when its year takes no padding, or gets it. -/
theorem stampOn_eq_text {pads : Bool} {c : ClockTime} :
    stampOn pads c.moment = .ok c.text ↔ pads = true ∨ 1000 ≤ c.year := by
  rw [stampOn_moment, Except.ok.injEq, text, List.append_cancel_right_eq, yearTextOn_eq_fourDigits]

/-! ## A script with its own digits -/

/-- A full-width digit. -/
def isFullWidth (c : Char) : Bool := 65296 ≤ c.toNat && c.toNat ≤ 65305

theorem isFullWidth_of_isAscii {c : Char} (h : isAscii c = true) : isFullWidth c = false := by
  simp only [isAscii, isFullWidth, decide_eq_true_eq, Bool.and_eq_false_iff,
    decide_eq_false_iff_not] at h ⊢
  omega

/-- Tables that know the full-width digits besides ASCII. -/
@[reducible] def fullWidthDigits : Unicode where
  __ := Unicode.ascii
  isDigit c := Unicode.ascii.isDigit c || isFullWidth c
  decimal c := if isFullWidth c then some (c.toNat - 65296) else Unicode.ascii.decimal c
  isDigit_ascii c h := by
    rw [isFullWidth_of_isAscii h, Bool.or_false]
    exact Unicode.ascii.isDigit_ascii c h
  decimal_ascii c h := by
    rw [isFullWidth_of_isAscii h]
    exact Unicode.ascii.decimal_ascii c h
  isDigit_of_decimal c n h := by
    split at h
    · rename_i hc
      rw [hc, Bool.or_true]
    · rw [Unicode.ascii.isDigit_of_decimal c n h, Bool.true_or]

theorem fullWidthDigits_lt_ten : ∀ c n, fullWidthDigits.decimal c = some n → n < 10 := by
  intro c n h
  change (if isFullWidth c then some (c.toNat - 65296) else Unicode.ascii.decimal c) = some n at h
  split at h
  · rename_i hc
    obtain rfl := Option.some.inj h
    simp only [isFullWidth, Bool.and_eq_true, decide_eq_true_eq] at hc
    omega
  · change (if isAscii c && c.isDigit then some (c.toNat - 48) else none) = some n at h
    split at h
    · rename_i hc
      obtain rfl := Option.some.inj h
      simp only [Bool.and_eq_true, Char.isDigit, decide_eq_true_eq] at hc
      have hhi : c.toNat ≤ 57 := UInt32.le_iff_toNat_le.mp hc.2.2
      omega
    · simp at h

/-! ## The accepted texts -/

variable [Unicode]

theorem timestamp_eq_ok_iff (hten : ∀ c n, Unicode.decimal c = some n → n < 10) {s : String}
    {t : DateTime} :
    timestamp (.str s) = .ok t ↔ ∃ c : ClockTime, c.Spells s.toList ∧ t = c.moment := by
  rw [← timestamp_eq_some_iff hten]
  simp only [timestamp]
  split <;> simp_all

/-- An accepted text is the ASCII text of a second of the calendar, and is written back as it
was read. -/
def Canonical (pads : Bool) (s : String) : Prop :=
  ∀ t, timestamp (.str s) = .ok t →
    (∃ c : ClockTime, s.toList = c.text ∧ t = c.moment) ∧ stampOn pads t = .ok s.toList

/-- Where decimal digits have values below ten: the accepted texts that are canonical are
those that spell a second in no other digits than ASCII, of a year that takes no padding or
gets it; and whole seconds of the years from 1000 on are read back from their texts. -/
theorem timestamp_canonical_iff (hten : ∀ c n, Unicode.decimal c = some n → n < 10)
    (pads : Bool) :
    (∀ s : String, Canonical pads s ↔ ∀ c : ClockTime, c.Spells s.toList →
      (∀ x ∈ s.toList, isAscii x = true) ∧ (pads = true ∨ 1000 ≤ c.year)) ∧
    ∀ t : DateTime, t.offset = some 0 → t.wall % 1000000 = 0 →
      1000 ≤ (Calendar.date (t.wall / 1000000 / 86400)).1 →
        ∃ text, stampOn pads t = .ok text ∧ timestamp (.str (String.ofList text)) = .ok t := by
  have hmax : maxWall = 3652059 * 86400 * 1000000 := rfl
  refine ⟨fun s => ⟨?_, ?_⟩, fun t hutc hwhole hyear => ?_⟩
  · intro h c hc
    obtain ⟨⟨c', htext, -⟩, hstamp⟩ := h _ ((timestamp_eq_ok_iff hten).mpr ⟨c, hc, rfl⟩)
    have hascii : ∀ x ∈ s.toList, isAscii x = true := by
      rw [htext]
      exact List.all_eq_true.mp (isAscii_text c')
    rw [hc.eq_text hascii] at hstamp
    exact ⟨hascii, stampOn_eq_text.mp hstamp⟩
  · intro h t ht
    obtain ⟨c, hc, rfl⟩ := (timestamp_eq_ok_iff hten).mp ht
    obtain ⟨hascii, hyear⟩ := h c hc
    rw [hc.eq_text hascii]
    exact ⟨⟨c, rfl, rfl⟩, stampOn_eq_text.mpr hyear⟩
  · have hlt := t.wall_lt
    obtain ⟨c, hseconds, hc⟩ := exists_seconds_eq (n := t.wall / 1000000) (by omega)
    have ht : t = c.moment := by
      cases t
      simp only at hutc hwhole hseconds
      subst hutc
      simp only [moment, hseconds, DateTime.mk.injEq, and_true]
      omega
    refine ⟨c.text, ?_, (timestamp_eq_ok_iff hten).mpr ⟨c, ?_, ht⟩⟩
    · rw [ht]
      exact stampOn_eq_text.mpr (.inr (by omega))
    · rw [String.toList_ofList]
      exact c.spells_text

omit [Unicode] in
/-- The hypothesis holds of these tables: an ASCII text is canonical, and a whole second is
read back. -/
theorem timestamp_canonical_iff_fullWidth :
    @Canonical fullWidthDigits true "2025-11-29T08:00:00Z" ∧
      ∃ text, stampOn true exampleNoon = .ok text ∧
        @timestamp fullWidthDigits (.str (String.ofList text)) = .ok exampleNoon :=
  have h := @timestamp_canonical_iff fullWidthDigits fullWidthDigits_lt_ten true
  ⟨(h.1 _).mpr fun _ _ => ⟨List.all_eq_true.mp rfl, .inl rfl⟩, h.2 exampleNoon rfl rfl (by decide)⟩

omit [Unicode] in
/-- A full-width digit of the year is read like an ASCII one, and written back as one. -/
theorem timestamp_fullWidth :
    ¬ ∃ pads, @Canonical fullWidthDigits pads "\uff12025-11-29T08:00:00Z" := by
  rintro ⟨pads, h⟩
  have hok : (@timestamp fullWidthDigits (.str "\uff12025-11-29T08:00:00Z")).toOption.isSome =
      true := by decide +kernel
  cases ht : @timestamp fullWidthDigits (.str "\uff12025-11-29T08:00:00Z") with
  | error e =>
    rw [ht] at hok
    simp [Except.toOption] at hok
  | ok t =>
    obtain ⟨⟨c, htext, -⟩, -⟩ := h t ht
    have hascii := isAscii_text c
    rw [← htext] at hascii
    exact absurd hascii (by decide)

end Wire
end VardrMap
