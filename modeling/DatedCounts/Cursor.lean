import DatedCounts.Error
import DatedCounts.Key.Range
import DatedCounts.Ordered.Set

/-!
# Cursors

A cursor stands on a record or on none, and moves over records in the order of their keys. It is
positioned on a range of keys and a choice of families, and then advanced. A move that fails says why
and leaves the cursor in some state, from which later moves go on.
-/

namespace DatedCounts

/-- A choice of families: the listed ones, or all but the listed ones. An empty list chooses all. -/
structure Projection where
  families : OrderedSet Bytes
  inclusive : Bool
  deriving DecidableEq

namespace Projection

def ofList (families : List Bytes) (inclusive : Bool) : Projection := ⟨.ofList families, inclusive⟩

def everything : Projection := ⟨∅, false⟩

def allows (projection : Projection) (family : Bytes) : Bool :=
  projection.families.isEmpty || projection.families.contains family == projection.inclusive

end Projection

inductive Outcome (σ : Type) where
  | done (state : σ)
  | failed (error : Error) (state : σ)

namespace Outcome

variable {σ τ : Type}

def state : Outcome σ → σ
  | done s => s
  | failed _ s => s

def error? : Outcome σ → Option Error
  | done _ => none
  | failed e _ => some e

/-- Moves on after a move that did not fail. -/
def andThen (o : Outcome σ) (f : σ → Outcome τ) (g : σ → τ) : Outcome τ :=
  match o with
  | done s => f s
  | failed e s => failed e (g s)

end Outcome

/-- States that can be read as a sequence of records. -/
class Cursor (σ : Type) where
  /-- The number of records of the data that is read, which no pass over it exceeds. -/
  size : σ → Nat
  top? : σ → Option Record
  /-- Moves to the first record of a range and a choice of families. -/
  seek : Range → Projection → σ → Outcome σ
  advance : σ → Outcome σ
  /-- Another cursor at the same place, which has counted nothing yet. -/
  fork : σ → σ

namespace Cursor

variable {σ : Type} [Cursor σ]

/-- The records from the top to the end, in at most `steps` moves. -/
def drain : (steps : Nat) → σ → σ × Except Error (List Record)
  | 0, s => (s, .ok [])
  | steps + 1, s =>
    match top? s with
    | none => (s, .ok [])
    | some record =>
      match advance s with
      | .failed e s => (s, .error e)
      | .done s =>
        match drain steps s with
        | (s, .error e) => (s, .error e)
        | (s, .ok records) => (s, .ok (record :: records))

def collect (range : Range) (s : σ) : σ × Except Error (List Record) :=
  match seek range .everything s with
  | .failed e s => (s, .error e)
  | .done s => drain (size s + 1) s

end Cursor

/-- A reader of the records of a positioned cursor, which ends at the first error or after the last
record. -/
structure Entries (σ : Type) where
  cursor : σ
  started : Bool
  ended : Bool

namespace Entries

variable {σ : Type} [Cursor σ]

def ofCursor (cursor : σ) : Entries σ := ⟨cursor, false, false⟩

def present (cursor : σ) : Option (Except Error Record) × Entries σ :=
  match Cursor.top? cursor with
  | some record => (some (.ok record), ⟨cursor, true, false⟩)
  | none => (none, ⟨cursor, true, true⟩)

def next (entries : Entries σ) : Option (Except Error Record) × Entries σ :=
  if entries.ended then (none, entries)
  else if entries.started then
    match Cursor.advance entries.cursor with
    | .done cursor => present cursor
    | .failed e cursor => (some (.error e), ⟨cursor, true, true⟩)
  else present entries.cursor

end Entries

end DatedCounts
