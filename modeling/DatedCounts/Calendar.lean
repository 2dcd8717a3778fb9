import DatedCounts.Text.Numeral
import DatedCounts.Text.Utf8

/-!
# Calendar dates

Days of the proleptic Gregorian calendar, read and written as eight digits: four of the year, two of
the month and two of the day. On years of four digits the order of the dates is the order of their
written forms.
-/

namespace DatedCounts

namespace Calendar

def isLeap (year : Int) : Bool := year % 4 == 0 && (year % 100 != 0 || year % 400 == 0)

def daysIn (year : Int) (month : Nat) : Nat :=
  match month with
  | 2 => if isLeap year then 29 else 28
  | 4 | 6 | 9 | 11 => 30
  | _ => 31

end Calendar

structure Date where
  year : Int
  month : Nat
  day : Nat
  valid : 1 ≤ month ∧ month ≤ 12 ∧ 1 ≤ day ∧ day ≤ Calendar.daysIn year month
  deriving DecidableEq

namespace Date

instance : Ord Date :=
  ⟨compareLex (compareOn year) (compareLex (compareOn month) (compareOn day))⟩

inductive Fault where
  | shape (s : String)
  | outOfRange (s : String)
  deriving DecidableEq, Repr

def ofYearMonthDay? (year : Int) (month day : Nat) : Option Date :=
  if h : 1 ≤ month ∧ month ≤ 12 ∧ 1 ≤ day ∧ day ≤ Calendar.daysIn year month then
    some ⟨year, month, day, h⟩
  else none

/-! ### Written dates -/

/-- Whether a byte string is eight ASCII digits. -/
def isShaped (bytes : List UInt8) : Bool :=
  bytes.length == 8 && bytes.all fun b => 0x30 ≤ b && b ≤ 0x39

/-- The day that eight digits name, if there is one. This is where the calendar is assumed: only texts of
the right shape are read by it. -/
def ofDigits? (cs : List Char) : Option Date :=
  match cs.mapM Numeral.digit? with
  | some [y₁, y₂, y₃, y₄, m₁, m₂, d₁, d₂] =>
    ofYearMonthDay? (y₁ * 1000 + y₂ * 100 + y₃ * 10 + y₄ : Nat) (m₁ * 10 + m₂) (d₁ * 10 + d₂)
  | _ => none

def parse (s : String) : Except Fault Date :=
  if isShaped (Utf8.encode s.toList) then
    match ofDigits? s.toList with
    | some date => .ok date
    | none => .error (.outOfRange s)
  else .error (.shape s)

def lastDigits : (width : Nat) → Nat → List Char
  | 0, _ => []
  | width + 1, n => lastDigits width (n / 10) ++ [Nat.digitChar (n % 10)]

def atLeastFourDigits (n : Nat) : List Char :=
  if n < 10000 then lastDigits 4 n else Nat.toDigits 10 n

/-- A year has a sign when it is not between 0 and 9999. -/
def yearDigits (year : Int) : List Char :=
  if year < 0 then '-' :: atLeastFourDigits year.natAbs
  else if 9999 < year then '+' :: atLeastFourDigits year.natAbs
  else lastDigits 4 year.natAbs

def digits (date : Date) : List Char :=
  yearDigits date.year ++ lastDigits 2 date.month ++ lastDigits 2 date.day

def format (date : Date) : String := .ofList date.digits

def hyphenated (date : Date) : String :=
  .ofList (yearDigits date.year ++ '-' :: lastDigits 2 date.month ++ '-' :: lastDigits 2 date.day)

end Date

end DatedCounts
