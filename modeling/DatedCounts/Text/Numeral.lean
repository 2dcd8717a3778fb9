/-!
# Unsigned decimal numerals

A numeral is one or more digits after at most one plus sign, and denotes a number below `2 ^ 64`. The
digits are read from the left, and the first that cannot be taken decides what is wrong.
-/

namespace DatedCounts.Numeral

inductive Fault where
  | empty
  | invalidDigit
  | tooLarge
  deriving DecidableEq, Repr

def Fault.message : Fault → String
  | .empty => "cannot parse integer from empty string"
  | .invalidDigit => "invalid digit found in string"
  | .tooLarge => "number too large to fit in target type"

def digit? (c : Char) : Option Nat :=
  if '0' ≤ c ∧ c ≤ '9' then some (c.toNat - '0'.toNat) else none

/-- The number that the digits continue from `value`. -/
def readDigits (value : Nat) : List Char → Except Fault Nat
  | [] => .ok value
  | c :: rest =>
    match digit? c with
    | none => .error .invalidDigit
    | some d => if value * 10 + d < UInt64.size then readDigits (value * 10 + d) rest else .error .tooLarge

def parse : List Char → Except Fault UInt64
  | [] => .error .empty
  | ['+'] => .error .invalidDigit
  | '+' :: digits => (readDigits 0 digits).map .ofNat
  | digits => (readDigits 0 digits).map .ofNat

end DatedCounts.Numeral
