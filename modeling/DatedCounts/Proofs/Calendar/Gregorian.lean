import DatedCounts.Proofs.Calendar.Width
import DatedCounts.Proofs.Text.Numeral

/-!
# Days of the calendar

A text is read as a date just if it is eight digits that name a day of the proleptic Gregorian calendar, and
it is what the date is written as. Each date of a year from 0 to 9999 is read back from what it is written as,
and the dates are in the order of the bytes of their texts.
-/

namespace DatedCounts

/-! ### The days of a month -/

namespace Calendar

/-- The lengths of the months of a year that is not a leap year. -/
def monthLengths : List Nat := [31, 28, 31, 30, 31, 30, 31, 31, 30, 31, 30, 31]

def IsLeapYear (year : Nat) : Prop := 4 ∣ year ∧ (100 ∣ year → 400 ∣ year)

def HasDay (year month day : Nat) : Prop :=
  1 ≤ month ∧ 1 ≤ day ∧ ∃ length, monthLengths[month - 1]? = some length ∧
    (day ≤ length ∨ IsLeapYear year ∧ month = 2 ∧ day = 29)

theorem isLeap_natCast_iff {year : Nat} : isLeap year ↔ IsLeapYear year := by
  simp only [isLeap, IsLeapYear, Bool.and_eq_true, Bool.or_eq_true, beq_iff_eq, bne_iff_ne]
  omega

theorem hasDay_iff {year month day : Nat} : HasDay year month day ↔
    1 ≤ month ∧ month ≤ 12 ∧ 1 ≤ day ∧ day ≤ daysIn year month := by
  by_cases hmonth : 1 ≤ month ∧ month ≤ 12
  · obtain ⟨hfirst, hlast⟩ := hmonth
    interval_cases month
    case «2» =>
      rw [daysIn]
      simp only [HasDay, monthLengths, ← isLeap_natCast_iff]
      split <;> simp [*]
      omega
    all_goals simp [HasDay, monthLengths, daysIn]
  · have hnone : 1 ≤ month → monthLengths[month - 1]? = none := fun hfirst =>
      List.getElem?_eq_none (show 12 ≤ month - 1 by omega)
    constructor
    · rintro ⟨hfirst, _, length, hlength, _⟩
      rw [hnone hfirst] at hlength
      cases hlength
    · rintro ⟨hfirst, hlast, _⟩
      exact absurd ⟨hfirst, hlast⟩ hmonth

theorem daysIn_le (year : Int) (month : Nat) : daysIn year month ≤ 31 := by
  unfold daysIn
  repeat' split
  all_goals decide

end Calendar

namespace Date

variable {date other : Date} {s t : String}

/-! ### Reading and writing -/

theorem month_lt (date : Date) : date.month < 10 ^ 2 := by
  have hvalid := date.valid
  omega

theorem day_lt (date : Date) : date.day < 10 ^ 2 := by
  have hvalid := date.valid
  have hle := Calendar.daysIn_le date.year date.month
  omega

theorem natAbs_year_lt (h : date.HasPlainYear) : date.year.natAbs < 10 ^ 4 := by
  obtain ⟨hlow, hhigh⟩ := h
  omega

theorem isShaped_digits (h : date.HasPlainYear) : isShaped (Utf8.encode date.digits) := by
  rw [digits_of_hasPlainYear h, isShaped, Bool.and_eq_true, beq_iff_eq, List.all_eq_true]
  simp only [Utf8.encode_append, List.length_append, length_encode_lastDigits, List.mem_append,
    Bool.and_eq_true, decide_eq_true_iff, true_and]
  rintro b ((hb | hb) | hb) <;> exact digit_of_mem_encode_lastDigits hb

theorem parse_format (h : date.HasPlainYear) : parse date.format = .ok date := by
  rw [parse_eq_ok, format, String.toList_ofList]
  refine ⟨isShaped_digits h, ?_⟩
  obtain ⟨year, month, day, hvalid⟩ := date
  obtain ⟨year, rfl⟩ : ∃ n : Nat, year = n := Int.eq_ofNat_of_zero_le h.1
  have hyear : year < 10 ^ 4 := natAbs_year_lt h
  have hmonth : month < 10 ^ 2 := month_lt ⟨year, month, day, hvalid⟩
  have hday : day < 10 ^ 2 := day_lt ⟨year, month, day, hvalid⟩
  have hread : (digits ⟨year, month, day, hvalid⟩).mapM Numeral.digit? = some [year / 1000 % 10,
      year / 100 % 10, year / 10 % 10, year % 10, month / 10 % 10, month % 10, day / 10 % 10,
      day % 10] := by
    rw [digits_of_hasPlainYear h]
    simp [lastDigits, Nat.div_div_eq_div_mul, Numeral.digit?_digitChar, Nat.mod_lt]
  have hfour : year / 1000 % 10 * 1000 + year / 100 % 10 * 100 + year / 10 % 10 * 10 + year % 10 =
      year := by omega
  have htwo : ∀ n < 10 ^ 2, n / 10 % 10 * 10 + n % 10 = n := by omega
  rw [ofDigits?, hread]
  simp only [hfour, htwo month hmonth, htwo day hday, ofYearMonthDay?, dif_pos hvalid]

theorem parse_eq_ok_iff : parse s = .ok date ↔ date.HasPlainYear ∧ date.format = s := by
  constructor
  · intro h
    exact ⟨hasPlainYear_of_parse h, by rw [format, digits_of_parse h, String.ofList_toList]⟩
  · rintro ⟨hplain, rfl⟩
    exact parse_format hplain

/-- Whether a text is eight digits that name a day: four of its year, two of its month and two of its own. -/
structure NamesDay (s : String) : Prop where
  length : s.toList.length = 8
  digits : ∀ c ∈ s.toList, c.isDigit
  day : Calendar.HasDay (value (s.toList.take 4)) (value ((s.toList.drop 4).take 2))
    (value (s.toList.drop 6))

theorem namesDay_format (h : date.HasPlainYear) : NamesDay date.format := by
  have hyear := value_lastDigits (natAbs_year_lt h)
  have hmonth := value_lastDigits date.month_lt
  have hday := value_lastDigits date.day_lt
  have hparts : date.format.toList =
      lastDigits 4 date.year.natAbs ++ (lastDigits 2 date.month ++ lastDigits 2 date.day) := by
    rw [format, String.toList_ofList, digits_of_hasPlainYear h, List.append_assoc]
  constructor
  · rw [hparts]
    simp only [List.length_append, length_lastDigits]
  · intro c hc
    rw [hparts, List.mem_append, List.mem_append] at hc
    rcases hc with hc | hc | hc <;> exact isDigit_of_mem_lastDigits hc
  · have hyears : date.format.toList.take 4 = lastDigits 4 date.year.natAbs := by
      rw [hparts]
      exact List.take_left' (length_lastDigits 4 _)
    have hrest : date.format.toList.drop 4 = lastDigits 2 date.month ++ lastDigits 2 date.day := by
      rw [hparts]
      exact List.drop_left' (length_lastDigits 4 _)
    have hdays : date.format.toList.drop 6 = lastDigits 2 date.day := by
      rw [← List.drop_drop (i := 2) (j := 4), hrest]
      exact List.drop_left' (length_lastDigits 2 _)
    have hmonths : (date.format.toList.drop 4).take 2 = lastDigits 2 date.month := by
      rw [hrest]
      exact List.take_left' (length_lastDigits 2 _)
    rw [hyears, hmonths, hdays, hyear, hmonth, hday, Calendar.hasDay_iff]
    have hvalid := date.valid
    rwa [← Int.natAbs_of_nonneg h.1] at hvalid

/-- The texts that are read as dates are those that name a day. -/
theorem exists_parse_iff : (∃ date, parse s = .ok date) ↔ NamesDay s := by
  constructor
  · rintro ⟨date, h⟩
    obtain ⟨hplain, rfl⟩ := parse_eq_ok_iff.1 h
    exact namesDay_format hplain
  · rintro ⟨hlength, hdigits, hday⟩
    -- The date of the three values is written in the digits that they were taken from.
    have hpart : ∀ width, ∀ cs ⊆ s.toList, cs.length = width →
        value cs < 10 ^ width ∧ lastDigits width (value cs) = cs := by
      rintro _ cs hsub rfl
      have hcs : ∀ c ∈ cs, c.isDigit := fun c hc => hdigits c (hsub hc)
      exact ⟨value_lt hcs, lastDigits_value hcs⟩
    have hyears := hpart 4 (s.toList.take 4) (List.take_subset 4 _) (by simp [hlength])
    have hmonths := hpart 2 ((s.toList.drop 4).take 2)
      (List.Subset.trans (List.take_subset 2 _) (List.drop_subset 4 _)) (by simp [hlength])
    have hdays := hpart 2 (s.toList.drop 6) (List.drop_subset 6 _) (by simp [hlength])
    let date : Date := ⟨value (s.toList.take 4), _, _, Calendar.hasDay_iff.1 hday⟩
    have hplain : date.HasPlainYear := by
      have hyear : date.year = value (s.toList.take 4) := rfl
      exact ⟨by omega, by omega⟩
    have hchars : date.digits = s.toList := by
      rw [digits_of_hasPlainYear hplain, Int.natAbs_natCast, hyears.2, hmonths.2, hdays.2,
        List.append_assoc, ← List.drop_drop (i := 2) (j := 4), List.take_append_drop,
        List.take_append_drop]
    exact ⟨date, parse_eq_ok_iff.2 ⟨hplain, by rw [format, hchars, String.ofList_toList]⟩⟩

/-! ### The order of dates -/

private theorem compare_natAbs {a b : Int} (ha : 0 ≤ a) (hb : 0 ≤ b) :
    compare a b = compare a.natAbs b.natAbs := by
  rcases Int.lt_trichotomy a b with hlt | rfl | hgt
  · rw [Int.compare_eq_lt.2 hlt, Nat.compare_eq_lt.2 (by omega)]
  · simp
  · rw [Int.compare_eq_gt.2 hgt, Nat.compare_eq_gt.2 (by omega)]

theorem compare_eq (a b : Date) : compare a b =
    (compare a.year b.year).then ((compare a.month b.month).then (compare a.day b.day)) :=
  rfl

theorem compare_digits (hdate : date.HasPlainYear) (hother : other.HasPlainYear) :
    compare (Utf8.encode date.digits) (Utf8.encode other.digits) = compare date other := by
  have hyear : compare date.year other.year = compare date.year.natAbs other.year.natAbs :=
    compare_natAbs hdate.1 hother.1
  have hwidth : ∀ width m n, (Utf8.encode (lastDigits width m)).length =
      (Utf8.encode (lastDigits width n)).length := fun width m n => by
    rw [length_encode_lastDigits, length_encode_lastDigits]
  rw [digits_of_hasPlainYear hdate, digits_of_hasPlainYear hother, List.append_assoc,
    List.append_assoc, Utf8.encode_append, Utf8.encode_append, Utf8.encode_append,
    Utf8.encode_append, Bytes.compare_append (hwidth _ _ _), Bytes.compare_append (hwidth _ _ _),
    compare_lastDigits (natAbs_year_lt hdate) (natAbs_year_lt hother),
    compare_lastDigits date.month_lt other.month_lt, compare_lastDigits date.day_lt other.day_lt,
    compare_eq, hyear]

end Date

end DatedCounts
