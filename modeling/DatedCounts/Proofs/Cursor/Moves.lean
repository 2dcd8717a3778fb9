import DatedCounts.Cursor.Stack
import DatedCounts.Proofs.Cursor.Reading

/-!
# Moves one after another

A cursor that was moved can be advanced again and again, whether or not the moves fail. As long as they
do not, the moves show the records that are read. Past the last record a cursor stays where it is, and
every advance fails.
-/

namespace DatedCounts

namespace Cursor

variable {σ : Type} [Cursor σ]

/-- The outcomes of a first move and of the advances after it, whether or not they fail. -/
def moves (first : Outcome σ) : Nat → Outcome σ
  | 0 => first
  | n + 1 => advance (moves first n).state

theorem moves_succ (first : Outcome σ) (n : Nat) :
    moves first (n + 1) = moves (advance first.state) n := by
  induction n with
  | zero => rfl
  | succ n ih => rw [moves, ih, moves]

theorem Reads.moves_of_lt {s : σ} {records : List Record} {fault : Option Error}
    (h : Reads s records fault) {n : Nat} (hn : n < records.length) :
    ∃ shown, moves (.done s) n = .done shown ∧ top? shown = some records[n] := by
  induction h generalizing n with
  | ended => cases hn
  | @failed s s' record e htop hmove =>
    obtain rfl : n = 0 := by simpa using hn
    exact ⟨s, rfl, htop⟩
  | @next s s' record rest fault htop hmove _ ih =>
    cases n with
    | zero => exact ⟨s, rfl, htop⟩
    | succ n =>
      obtain ⟨shown, hshown, hrecord⟩ := ih (Nat.lt_of_succ_lt_succ hn)
      refine ⟨shown, ?_, hrecord⟩
      rw [moves_succ, Outcome.state, hmove, hshown]

theorem Reads.moves_fault {s : σ} {records : List Record} {e : Error}
    (h : Reads s records (some e)) : ∃ s', moves (.done s) records.length = .failed e s' := by
  generalize hfault : some e = fault at h
  induction h with
  | ended => cases hfault
  | @failed s s' record e' htop hmove =>
    cases hfault
    exact ⟨s', hmove⟩
  | @next s s' record rest fault htop hmove _ ih =>
    obtain ⟨s'', hmoves⟩ := ih hfault
    refine ⟨s'', ?_⟩
    rw [List.length_cons, moves_succ, Outcome.state, hmove, hmoves]

/-- What each advance from a record carries on, for the number of records passed, holds at the end. -/
theorem Reads.moves_end_of {P : Nat → σ → Prop}
    (hadvance : ∀ {n s s' record}, P n s → top? s = some record → advance s = .done s' → P (n + 1) s')
    {s : σ} {records : List Record} (h : Reads s records none) {n : Nat} (hs : P n s) :
    ∃ last, moves (.done s) records.length = .done last ∧ top? last = none ∧
      P (n + records.length) last := by
  generalize hfault : none = fault at h
  induction h generalizing n with
  | @ended s htop => exact ⟨s, rfl, htop, hs⟩
  | failed => cases hfault
  | @next s s' record rest fault htop hmove _ ih =>
    obtain ⟨last, hmoves, hlast, hP⟩ := ih (hadvance hs htop hmove) hfault
    refine ⟨last, ?_, hlast, ?_⟩
    · rw [List.length_cons, moves_succ, Outcome.state, hmove, hmoves]
    · rwa [List.length_cons, Nat.add_comm rest.length, ← Nat.add_assoc]

theorem Reads.moves_end {s : σ} {records : List Record} (h : Reads s records none) :
    ∃ last, moves (.done s) records.length = .done last ∧ top? last = none := by
  obtain ⟨last, hmoves, hlast, _⟩ :=
    h.moves_end_of (P := fun _ _ => True) (fun _ _ _ => trivial) (n := 0) trivial
  exact ⟨last, hmoves, hlast⟩

theorem Opens.moves_of_lt {first : Outcome σ} {records : List Record} {fault : Option Error}
    (h : Opens first records fault) {n : Nat} (hn : n < records.length) :
    ∃ shown, moves first n = .done shown ∧ top? shown = some records[n] := by
  cases first with
  | done s => exact Reads.moves_of_lt h hn
  | failed e s =>
    obtain ⟨rfl, _⟩ := h
    cases hn

theorem Opens.moves_fault {first : Outcome σ} {records : List Record} {e : Error}
    (h : Opens first records (some e)) : ∃ s, moves first records.length = .failed e s := by
  cases first with
  | done s => exact Reads.moves_fault h
  | failed e' s =>
    obtain ⟨rfl, heq⟩ := h
    cases heq
    exact ⟨s, rfl⟩

/-- Cursors that stay where they are when they are advanced without a record to advance from. -/
class Halting (σ : Type) [Cursor σ] : Prop where
  advance_of_none {s : σ} (h : top? s = none) :
    ∃ reader, Cursor.advance s = .failed (.exhausted reader) s

theorem moves_of_none [Halting σ] {first : Outcome σ} {s : σ} {k : Nat}
    (hstate : (moves first k).state = s) (htop : top? s = none) {n : Nat} (hn : k < n) :
    ∃ reader, moves first n = .failed (.exhausted reader) s := by
  obtain ⟨reader, hadvance⟩ := Halting.advance_of_none htop
  refine ⟨reader, ?_⟩
  induction n, hn using Nat.le_induction with
  | base => rw [moves, hstate, hadvance]
  | succ n _ ih => rw [moves, ih, Outcome.state, hadvance]

end Cursor

instance : Cursor.Halting Store where
  advance_of_none {s} h := by
    have hahead : s.ahead = [] := List.head?_eq_none_iff.1 h
    refine ⟨.store, ?_⟩
    change Store.advance s = _
    rw [Store.advance, hahead]

instance {σ : Type} [Cursor σ] : Cursor.Halting (Sieve σ) where
  advance_of_none {s} h := by
    refine ⟨.sieve, ?_⟩
    change Sieve.advance s = _
    rw [Sieve.advance, show s.top? = none from h]

instance {σ : Type} [Cursor σ] : Cursor.Halting (Rollup σ) where
  advance_of_none {s} h := by
    have hpending : s.pending = [] := List.head?_eq_none_iff.1 h
    refine ⟨.rollup, ?_⟩
    change Rollup.advance s = _
    rw [Rollup.advance, hpending]

instance Stack.halting : (layers : List Layer) → Cursor.Halting (Stack layers)
  | [] => inferInstanceAs (Cursor.Halting Store)
  | .sieve .. :: below => inferInstanceAs (Cursor.Halting (Sieve (Stack below)))
  | .rollup _ :: below => inferInstanceAs (Cursor.Halting (Rollup (Stack below)))

end DatedCounts
