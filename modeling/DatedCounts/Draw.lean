import DatedCounts.Calendar
import DatedCounts.DateMap

/-!
# Counts drawn from bytes

Counts and date maps for trials are drawn from a supply of bytes. Numbers take their bytes from the
front, the lowest first, and a supply that runs out goes on with zeros.
-/

namespace DatedCounts

/-- Draws a value and leaves the rest of the supply. -/
abbrev Draw := StateM Bytes

namespace Draw

def number (width : Nat) : Draw Nat := fun supply =>
  ((supply.take width).foldr (fun b n => b.toNat + 256 * n) 0, supply.drop width)

/-- A count, of which three in four are small. -/
def count : Draw Count := do
  let choice ← number 1
  let n ← number (if choice % 4 = 0 then 1 else if choice % 4 = 1 then 2 else
    if choice % 4 = 2 then 4 else 8)
  return .ofNat (if choice % 4 = 3 then n / 2 else n)

/-- A date in one of thirty years, on a day that every month has. -/
def date : Draw Text := do
  let year ← number 2
  let month ← number 1
  let day ← number 1
  return .ofChars <| Date.lastDigits 4 (2000 + year % 30) ++ Date.lastDigits 2 (1 + month % 12) ++
    Date.lastDigits 2 (1 + day % 28)

/-- The map with `n` more dates, of which later ones replace equal earlier ones. -/
def extend : (n : Nat) → DateMap → Draw DateMap
  | 0, m => return m
  | n + 1, m => do
    let date ← date
    let count ← count
    extend n (m.insert date count)

def dateMap : Draw DateMap := do
  let n ← number 8
  extend (n % 32) ∅

end Draw

end DatedCounts
