import DatedCounts.Count
import DatedCounts.Error
import DatedCounts.Ordered.Map

/-!
# Counts by date

A date map keeps one count for each of its dates, in the order of the dates. Merging adds the counts of
equal dates and drops no date.
-/

namespace DatedCounts

@[ext] structure DateMap where
  entries : OrderedMap Text Count
  deriving DecidableEq

namespace DateMap

instance : EmptyCollection DateMap := ⟨⟨∅⟩⟩
instance : Inhabited DateMap := ⟨∅⟩

def toList (m : DateMap) : List (Text × Count) := m.entries.toList

def size (m : DateMap) : Nat := m.entries.size

def isEmpty (m : DateMap) : Bool := m.entries.isEmpty

def get? (m : DateMap) (date : Text) : Option Count := m.entries.get? date

def contains (m : DateMap) (date : Text) : Bool := m.entries.contains date

def insert (m : DateMap) (date : Text) (count : Count) : DateMap := ⟨m.entries.insert date count⟩

def add (m : DateMap) (date : Text) (count : Count) : DateMap :=
  ⟨m.entries.update date fun
    | some present => present.plus count
    | none => count⟩

def merge (m other : DateMap) : DateMap :=
  other.toList.foldl (fun m entry => m.add entry.1 entry.2) m

def erase (m : DateMap) (date : Text) : DateMap := ⟨m.entries.erase date⟩

def ofList (entries : List (Text × Count)) : DateMap :=
  entries.foldl (fun m entry => m.add entry.1 entry.2) ∅

def single (date : Text) (count : Count) : DateMap := insert ∅ date count

def earliest (m : DateMap) : Except Error Text :=
  m.entries.keys.head?.elim (.error .noEarliestDate) .ok

def latest (m : DateMap) : Except Error Text :=
  m.entries.keys.getLast?.elim (.error .noLatestDate) .ok

def total (m : DateMap) : Count := Count.sum m.entries.values

/-- The entries from `first` to `last`, both included. -/
def between (m : DateMap) (first last : Text) : DateMap :=
  ⟨m.entries.filterKeys fun date => (compare first date).isLE && (compare date last).isLE⟩

/-! ### Written maps -/

/-- Every date with its count, as `date:count` with commas between. -/
def render (m : DateMap) : String :=
  ",".intercalate <| m.toList.map fun (date, count) => s!"{date}:{count.toNat}"

/-- Every quoted date with its count, between braces. -/
def describe (m : DateMap) : String :=
  let items := m.toList.map fun (date, count) =>
    Quoted.text date.toString ++ ": Frequency \x7b val: " ++ toString count.toNat ++ " \x7d"
  "\x7b" ++ ", ".intercalate items ++ "\x7d"

end DateMap

end DatedCounts
