import DatedCounts.Text.Utf8

/-!
# Keys

A record is kept under a key of five parts. Keys are ordered by row, family, qualifier and visibility
in ascending order and then by timestamp in descending order, so the newest version of a cell comes
first. The boundary keys below bound the keys of a cell, of a family and of a run of qualifiers.
-/

namespace DatedCounts

@[ext] structure Key where
  row : Bytes
  family : Bytes
  qualifier : Bytes
  visibility : Bytes
  timestamp : UInt64
  deriving DecidableEq, Repr, Inhabited

abbrev Record := Key × Bytes

namespace Key

def order : Key → Key → Ordering :=
  compareLex (compareOn row) <| compareLex (compareOn family) <| compareLex (compareOn qualifier) <|
    compareLex (compareOn visibility) fun a b => compare b.timestamp a.timestamp

instance : Ord Key := ⟨order⟩

private instance newestFirst : Std.TransCmp fun a b : Key => compare b.timestamp a.timestamp :=
  @Std.TransCmp.opposite Key (compareOn timestamp) _

instance : Std.TransOrd Key := by
  change Std.TransCmp order
  unfold order
  infer_instance

instance : Std.LawfulEqOrd Key where
  eq_of_compare {a b} h := by
    change order a b = .eq at h
    simp only [order, compareLex_eq_eq, compareOn] at h
    obtain ⟨hrow, hfamily, hqualifier, hvisibility, htimestamp⟩ := h
    exact Key.ext (Std.LawfulEqCmp.eq_of_compare hrow) (Std.LawfulEqCmp.eq_of_compare hfamily)
      (Std.LawfulEqCmp.eq_of_compare hqualifier) (Std.LawfulEqCmp.eq_of_compare hvisibility)
      (Std.LawfulEqCmp.eq_of_compare htimestamp).symm

/-! ### Boundary keys -/

/-- The greatest timestamp, which sorts first. -/
def newestTimestamp : UInt64 := .ofNat (UInt64.size - 1)

/-- The least key of a cell. -/
def firstOf (row family qualifier : Bytes) : Key := ⟨row, family, qualifier, [], newestTimestamp⟩

/-- The least key above every key of a family. -/
def pastFamily (row family : Bytes) : Key := firstOf row (family ++ [0]) []

/-- The least key above every key of a family whose qualifier begins with `start`. -/
def pastQualifiers (row family start : Bytes) : Key :=
  match start.pastExtensions? with
  | some qualifier => firstOf row family qualifier
  | none => pastFamily row family

def newest (key : Key) : Key := { key with timestamp := newestTimestamp }

def sameFamily (a b : Key) : Bool := a.row == b.row && a.family == b.family

/-- A key as text for people to read, with the separator of the qualifier spelled out. -/
def describe (key : Key) : String :=
  let qualifier := (Utf8.lossy key.qualifier).toList.flatMap fun c =>
    if c = '\x00' then ['\\', 'x', '0', '0'] else [c]
  Utf8.lossy key.row ++ " " ++ Utf8.lossy key.family ++ ":" ++ String.ofList qualifier ++
    " [" ++ Utf8.lossy key.visibility ++ "] " ++ toString key.timestamp.toNat

end Key

end DatedCounts
