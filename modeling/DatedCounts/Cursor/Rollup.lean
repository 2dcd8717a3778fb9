import DatedCounts.Cursor
import DatedCounts.Cursor.Group

/-!
# Rollups

A rollup is a cursor over the sums of the groups of its source. It reads a whole group before it shows
any of its records, and all records of a group before it reads the next one, so its records ascend as
those of the source do. A group that fails yields no record.
-/

namespace DatedCounts

structure Rollup.Stats where
  groups : Nat
  input : Nat
  raw : Nat
  aggregated : Nat
  output : Nat
  deriving DecidableEq, Repr

structure Rollup (σ : Type) where
  source : σ
  /-- What combines the labels of a group, if they are combined. -/
  combiner : Option Combiner
  /-- The records of the present group from the top on. -/
  pending : List Record
  stats : Rollup.Stats

namespace Rollup

variable {σ : Type}

def ofSource (combiner : Option Combiner) (source : σ) : Rollup σ :=
  ⟨source, combiner, [], ⟨0, 0, 0, 0, 0⟩⟩

def countInput (s : Rollup σ) (key : Key) : Rollup σ :=
  let isRaw := key.parts.isRaw
  { s with
    stats.input := s.stats.input + 1
    stats.raw := s.stats.raw + if isRaw then 1 else 0
    stats.aggregated := s.stats.aggregated + if isRaw then 0 else 1 }

def countGroup (s : Rollup σ) : Rollup σ := { s with stats.groups := s.stats.groups + 1 }

def present (s : Rollup σ) (pending : List Record) : Rollup σ :=
  { s with pending, stats.output := s.stats.output + if pending.isEmpty then 0 else 1 }

variable [Cursor σ]

/-- Reads the records of a group, in at most `steps` moves. -/
def gather : (steps : Nat) → Group → Rollup σ → Rollup σ × Except Error Group
  | 0, group, s => (s, .ok group)
  | steps + 1, group, s =>
    match Cursor.top? s.source with
    | none => (s, .ok group)
    | some (key, value) =>
      if group.holds key then
        match Record.counts (key, value) with
        | .error e => (s, .error e)
        | .ok counts =>
          let s := s.countInput key
          match Cursor.advance s.source with
          | .failed e source => ({ s with source }, .error e)
          | .done source => gather steps (group.add key counts) { s with source }
      else (s, .ok group)

/-- Reads the next group, if there is one, and shows its first record. -/
def nextGroup (s : Rollup σ) : Outcome (Rollup σ) :=
  match Cursor.top? s.source with
  | none => .done s
  | some (key, _) =>
    match gather (Cursor.size s.source + 1) (.ofKey key) s with
    | (s, .error e) => .failed e s
    | (s, .ok group) =>
      match group.records s.combiner with
      | .error e => .failed e s.countGroup
      | .ok records => .done (s.countGroup.present records)

def seek (range : Range) (projection : Projection) (s : Rollup σ) : Outcome (Rollup σ) :=
  let s := { s with pending := [] }
  (Cursor.seek range.widened projection s.source).andThen
    (fun source => nextGroup { s with source }) (fun source => { s with source })

def advance (s : Rollup σ) : Outcome (Rollup σ) :=
  match s.pending with
  | [] => .failed (.exhausted .rollup) s
  | [_] => nextGroup { s with pending := [] }
  | _ :: next :: rest => .done (s.present (next :: rest))

instance : Cursor (Rollup σ) where
  size s := Cursor.size s.source
  top? s := s.pending.head?
  seek := seek
  advance := advance
  fork s := { s with source := Cursor.fork s.source, stats := ⟨0, 0, 0, 0, 0⟩ }

end Rollup

end DatedCounts
