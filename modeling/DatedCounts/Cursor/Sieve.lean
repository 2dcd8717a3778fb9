import DatedCounts.Cursor
import DatedCounts.Filter

/-!
# Sieves

A sieve is a cursor over the records of its source that a filter accepts. It passes over a rejected
record by one move of the source, as long as fewer than a set number of such moves have been made in a
row, and else positions the source at the filter's hint. A hint past the end of the range ends the
pass.
-/

namespace DatedCounts

structure Sieve.Stats where
  accepted : Nat
  rejected : Nat
  seeks : Nat
  nexts : Nat
  deriving DecidableEq, Repr

structure Sieve (σ : Type) where
  source : σ
  filter : Filter
  maxNext : Nat
  range : Range
  projection : Projection
  /-- Whether a hint lay past the end of the range. -/
  finished : Bool
  stats : Sieve.Stats

namespace Sieve

variable {σ : Type}

def ofSource (filter : Filter) (maxNext : Nat) (source : σ) : Sieve σ :=
  ⟨source, filter, maxNext, .all, .everything, false, ⟨0, 0, 0, 0⟩⟩

variable [Cursor σ]

def withSource (s : Sieve σ) (source : σ) : Sieve σ := { s with source }

/-- Passes over rejected records, in at most `steps` moves. `nexts` of the last moves stepped to the
next record. -/
def settle : (steps nexts : Nat) → Sieve σ → Outcome (Sieve σ)
  | 0, _, s => .done s
  | steps + 1, nexts, s =>
    match Cursor.top? s.source with
    | none => .done s
    | some (key, _) =>
      match s.filter.check key with
      | .error e => .failed e s
      | .ok .accept => .done { s with stats.accepted := s.stats.accepted + 1 }
      | .ok (.reject hint) =>
        let s := { s with stats.rejected := s.stats.rejected + 1 }
        if nexts < s.maxNext then
          let s := { s with stats.nexts := s.stats.nexts + 1 }
          (Cursor.advance s.source).andThen (settle steps (nexts + 1) <| s.withSource ·) s.withSource
        else if s.range.beforeEnd hint then
          let s := { s with stats.seeks := s.stats.seeks + 1 }
          (Cursor.seek (s.range.resumeAt hint) s.projection s.source).andThen
            (settle steps 0 <| s.withSource ·) s.withSource
        else .done { s with finished := true }

/-- Passes over rejected records. No more records than the source has can be rejected. -/
def settled (s : Sieve σ) : Outcome (Sieve σ) := settle (Cursor.size s.source + 1) 0 s

def top? (s : Sieve σ) : Option Record := if s.finished then none else Cursor.top? s.source

def seek (range : Range) (projection : Projection) (s : Sieve σ) : Outcome (Sieve σ) :=
  let s := { s with range, projection, finished := false }
  (Cursor.seek range projection s.source).andThen (settled <| s.withSource ·) s.withSource

def advance (s : Sieve σ) : Outcome (Sieve σ) :=
  match s.top? with
  | none => .failed (.exhausted .sieve) s
  | some _ => (Cursor.advance s.source).andThen (settled <| s.withSource ·) s.withSource

instance : Cursor (Sieve σ) where
  size s := Cursor.size s.source
  top? := top?
  seek := seek
  advance := advance
  fork s := { s with source := Cursor.fork s.source, stats := ⟨0, 0, 0, 0⟩ }

end Sieve

end DatedCounts
