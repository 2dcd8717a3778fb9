import DatedCounts.Cursor

/-!
# Stores

A store holds records in memory in the order of their keys. Its cursor keeps the records from its top
on; of the records that it passes it counts those it looked at, the first one past the end included.
-/

namespace DatedCounts

structure Store.Stats where
  seeks : Nat
  visits : Nat
  deriving DecidableEq, Repr

/-- Records in memory, with a place among them. -/
structure Store where
  data : OrderedMap Key Bytes
  range : Range
  projection : Projection
  /-- The records from the top on, none when there is no top. -/
  ahead : List Record
  stats : Store.Stats

namespace Store

def ofData (data : OrderedMap Key Bytes) : Store := ⟨data, .all, .everything, [], ⟨0, 0⟩⟩

/-- Passes over the records up to the first that is chosen, and counts those it looks at. -/
def settle (range : Range) (projection : Projection) : List Record → List Record × Nat
  | [] => ([], 0)
  | record :: rest =>
    if !range.beforeEnd record.1 then ([], 1)
    else if projection.allows record.1.family then (record :: rest, 1)
    else
      let (ahead, visits) := settle range projection rest
      (ahead, visits + 1)

def moveTo (s : Store) (records : List Record) : Store :=
  let (ahead, visits) := settle s.range s.projection records
  { s with ahead, stats.visits := s.stats.visits + visits }

def seek (range : Range) (projection : Projection) (s : Store) : Store :=
  { s with range, projection, stats.seeks := s.stats.seeks + 1 }.moveTo
    (s.data.toList.dropWhile fun record => !range.afterStart record.1)

def advance (s : Store) : Outcome Store :=
  match s.ahead with
  | [] => .failed (.exhausted .store) s
  | _ :: rest => .done (s.moveTo rest)

instance : Cursor Store where
  size s := s.data.size
  top? s := s.ahead.head?
  seek range projection s := .done (s.seek range projection)
  advance := advance
  fork s := { s with stats := ⟨0, 0⟩ }

end Store

end DatedCounts
