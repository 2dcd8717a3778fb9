import DatedCounts.Key

/-!
# Ranges of keys

A range has a start and an end, each of which may be open, include its key or exclude it. A range
whose end lies before its start holds no key.
-/

namespace DatedCounts

inductive Bound where
  | unbounded
  | included (key : Key)
  | excluded (key : Key)
  deriving DecidableEq, Repr

structure Range where
  start : Bound
  stop : Bound
  deriving DecidableEq, Repr

namespace Range

def all : Range := ⟨.unbounded, .unbounded⟩

instance : Inhabited Range := ⟨all⟩

def ofRow (row : Bytes) : Range :=
  ⟨.included (Key.firstOf row [] []), .excluded (Key.firstOf (row ++ [0]) [] [])⟩

def afterStart (range : Range) (key : Key) : Bool :=
  match range.start with
  | .unbounded => true
  | .included first => (compare key first).isGE
  | .excluded first => (compare key first).isGT

def beforeEnd (range : Range) (key : Key) : Bool :=
  match range.stop with
  | .unbounded => true
  | .included last => (compare key last).isLE
  | .excluded last => (compare key last).isLT

def contains (range : Range) (key : Key) : Bool := range.afterStart key && range.beforeEnd key

/-- The range from `key` on, with the same end. -/
def resumeAt (range : Range) (key : Key) : Range := { range with start := .included key }

/-- The range that starts at the newest version of its first cell, so that no version of it is cut
off. A key that is excluded stays the start. -/
def widened (range : Range) : Range :=
  match range.start with
  | .included key => range.resumeAt key.newest
  | _ => range

end Range

end DatedCounts
