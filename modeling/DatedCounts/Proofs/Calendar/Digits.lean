import Mathlib
import DatedCounts.Calendar

/-!
# Dates read and written

A date that was read from eight digits is written as those digits.
-/

namespace DatedCounts

namespace Numeral

theorem digit?_eq_some {c : Char} {d : Nat} (h : digit? c = some d) : d < 10 ∧ Nat.digitChar d = c := by
  rw [digit?] at h
  split at h
  · next hc =>
    have hlow : 48 ≤ c.toNat := hc.1
    have hhigh : c.toNat ≤ 57 := hc.2
    have hd : c.toNat - 48 = d := Option.some.inj h
    have hten : d < 10 := by omega
    refine ⟨hten, Char.toNat_inj.1 ?_⟩
    rw [Nat.toNat_digitChar_of_lt_ten hten]
    omega
  · cases h

theorem mapM_digit?_eq_some {cs : List Char} {ds : List Nat} (h : cs.mapM digit? = some ds) :
    (∀ d ∈ ds, d < 10) ∧ ds.map Nat.digitChar = cs := by
  induction cs generalizing ds with
  | nil =>
    obtain rfl : [] = ds := by simpa using h
    simp
  | cons c cs ih =>
    simp only [List.mapM_cons, Option.bind_eq_bind, Option.bind_eq_some_iff, Option.pure_def,
      Option.some.injEq] at h
    obtain ⟨d, hd, rest, hrest, rfl⟩ := h
    obtain ⟨hten, hchar⟩ := digit?_eq_some hd
    obtain ⟨htens, hchars⟩ := ih hrest
    exact ⟨List.forall_mem_cons.2 ⟨hten, htens⟩, by rw [List.map_cons, hchar, hchars]⟩

end Numeral

namespace Date

theorem lastDigits_append {d : Nat} (hd : d < 10) (width n : Nat) :
    lastDigits (width + 1) (n * 10 + d) = lastDigits width n ++ [Nat.digitChar d] := by
  rw [lastDigits, show (n * 10 + d) / 10 = n by omega, show (n * 10 + d) % 10 = d by omega]

theorem lastDigits_two {a b : Nat} (ha : a < 10) (hb : b < 10) :
    lastDigits 2 (a * 10 + b) = [Nat.digitChar a, Nat.digitChar b] := by
  have hfirst := lastDigits_append ha 0 0
  rw [Nat.zero_mul, Nat.zero_add a] at hfirst
  rw [lastDigits_append hb, hfirst]
  rfl

theorem lastDigits_four {a b c d : Nat} (ha : a < 10) (hb : b < 10) (hc : c < 10) (hd : d < 10) :
    lastDigits 4 (a * 1000 + b * 100 + c * 10 + d) =
      [Nat.digitChar a, Nat.digitChar b, Nat.digitChar c, Nat.digitChar d] := by
  have hvalue : a * 1000 + b * 100 + c * 10 + d = ((a * 10 + b) * 10 + c) * 10 + d := by omega
  rw [hvalue, lastDigits_append hd, lastDigits_append hc, lastDigits_two ha hb]
  rfl

theorem parse_eq_ok {s : String} {date : Date} : parse s = .ok date ↔
    isShaped (Utf8.encode s.toList) ∧ ofDigits? s.toList = some date := by
  rw [parse]
  by_cases hshaped : isShaped (Utf8.encode s.toList)
  · rw [if_pos hshaped]
    cases ofDigits? s.toList <;> simp [hshaped]
  · simp [hshaped]

theorem exists_digits_of_parse {s : String} {date : Date} (h : parse s = .ok date) :
    ∃ y₁ y₂ y₃ y₄ m₁ m₂ d₁ d₂, (∀ d ∈ [y₁, y₂, y₃, y₄, m₁, m₂, d₁, d₂], d < 10) ∧
      [y₁, y₂, y₃, y₄, m₁, m₂, d₁, d₂].map Nat.digitChar = s.toList ∧
        date.year = (y₁ * 1000 + y₂ * 100 + y₃ * 10 + y₄ : Nat) ∧
          date.month = m₁ * 10 + m₂ ∧ date.day = d₁ * 10 + d₂ := by
  have hread := (parse_eq_ok.1 h).2
  rw [ofDigits?] at hread
  split at hread
  · next y₁ y₂ y₃ y₄ m₁ m₂ d₁ d₂ hdigits =>
    rw [ofYearMonthDay?] at hread
    split at hread
    · cases hread
      obtain ⟨hten, hchars⟩ := Numeral.mapM_digit?_eq_some hdigits
      exact ⟨y₁, y₂, y₃, y₄, m₁, m₂, d₁, d₂, hten, hchars, rfl, rfl, rfl⟩
    · cases hread
  · cases hread

/-- Whether the year of a date is written with four digits and without a sign. -/
def HasPlainYear (date : Date) : Prop := 0 ≤ date.year ∧ date.year ≤ 9999

theorem digits_of_hasPlainYear {date : Date} (h : date.HasPlainYear) :
    date.digits =
      lastDigits 4 date.year.natAbs ++ lastDigits 2 date.month ++ lastDigits 2 date.day := by
  obtain ⟨hlow, hhigh⟩ := h
  rw [digits, yearDigits, if_neg (by omega), if_neg (by omega)]

theorem hasPlainYear_of_parse {s : String} {date : Date} (h : parse s = .ok date) :
    date.HasPlainYear := by
  obtain ⟨y₁, y₂, y₃, y₄, m₁, m₂, d₁, d₂, hten, _, hyear, _⟩ := exists_digits_of_parse h
  simp only [List.forall_mem_cons] at hten
  exact ⟨by omega, by omega⟩

theorem digits_of_parse {s : String} {date : Date} (h : parse s = .ok date) :
    date.digits = s.toList := by
  obtain ⟨y₁, y₂, y₃, y₄, m₁, m₂, d₁, d₂, hten, hchars, hyear, hmonth, hday⟩ :=
    exists_digits_of_parse h
  simp only [List.forall_mem_cons, List.not_mem_nil, false_implies, implies_true, and_true] at hten
  obtain ⟨hy₁, hy₂, hy₃, hy₄, hm₁, hm₂, hd₁, hd₂⟩ := hten
  rw [digits_of_hasPlainYear (hasPlainYear_of_parse h), hyear, hmonth, hday, Int.natAbs_natCast,
    lastDigits_four hy₁ hy₂ hy₃ hy₄, lastDigits_two hm₁ hm₂, lastDigits_two hd₁ hd₂]
  exact hchars

end Date

end DatedCounts
