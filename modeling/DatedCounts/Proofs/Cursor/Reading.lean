import Mathlib
import DatedCounts.Cursor

/-!
# What a cursor reads

From a state on, a cursor reads the records that it shows as it is advanced again and again, up to the
end or to the first move that fails. The relation below has no bound on the number of moves; a bounded
pass over the records agrees with it as soon as it has more moves than there are records.
-/

namespace DatedCounts

theorem Outcome.state_andThen {σ τ : Type} {P : σ → Prop} {Q : τ → Prop} {move : Outcome σ}
    {f : σ → Outcome τ} {g : σ → τ} (h : P move.state) (hf : ∀ s, P s → Q (f s).state)
    (hg : ∀ s, P s → Q (g s)) : Q (move.andThen f g).state := by
  cases move with
  | done s => exact hf s h
  | failed e s => exact hg s h

namespace Cursor

variable {σ : Type} [Cursor σ]

/-- The tops that advancing shows, and the error of the move that ends the pass before its end. -/
inductive Reads : σ → List Record → Option Error → Prop
  | ended {s : σ} (htop : top? s = none) : Reads s [] none
  | failed {s s' : σ} {record : Record} {e : Error} (htop : top? s = some record)
      (hmove : advance s = .failed e s') : Reads s [record] (some e)
  | next {s s' : σ} {record : Record} {records : List Record} {fault : Option Error}
      (htop : top? s = some record) (hmove : advance s = .done s')
      (hrest : Reads s' records fault) : Reads s (record :: records) fault

/-- What is read from the state that a move leads to. A move that fails reads nothing. -/
def Opens (move : Outcome σ) (records : List Record) (fault : Option Error) : Prop :=
  match move with
  | .done s => Reads s records fault
  | .failed e _ => records = [] ∧ fault = some e

theorem Opens.exists_done {move : Outcome σ} {records : List Record} (h : Opens move records none) :
    ∃ s, move = .done s ∧ Reads s records none := by
  cases move with
  | done s => exact ⟨s, rfl, h⟩
  | failed e s => cases h.2

theorem Opens.cons {s : σ} {record : Record} {records : List Record} {fault : Option Error}
    (h : Opens (advance s) records fault) (htop : top? s = some record) :
    Reads s (record :: records) fault := by
  cases hmove : advance s with
  | done s' =>
    rw [hmove] at h
    exact .next htop hmove h
  | failed e s' =>
    rw [hmove] at h
    obtain ⟨rfl, rfl⟩ := h
    exact .failed htop hmove

theorem Reads.top?_eq {s : σ} {records : List Record} {fault : Option Error}
    (h : Reads s records fault) : top? s = records.head? := by
  cases h with
  | ended htop => exact htop
  | failed htop => exact htop
  | next htop => exact htop

theorem Reads.fault_eq_none {s : σ} {fault : Option Error} (h : Reads s [] fault) :
    fault = none := by
  cases h
  rfl

theorem Reads.unique {s : σ} {xs ys : List Record} {f g : Option Error} (hx : Reads s xs f)
    (hy : Reads s ys g) : xs = ys ∧ f = g := by
  induction hx generalizing ys g with
  | ended htop =>
    cases hy with
    | ended => exact ⟨rfl, rfl⟩
    | failed htop' | next htop' => simp [htop] at htop'
  | failed htop hmove =>
    cases hy with
    | ended htop' => simp [htop] at htop'
    | failed htop' hmove' => simp_all
    | next htop' hmove' => simp [hmove] at hmove'
  | next htop hmove _ ih =>
    cases hy with
    | ended htop' => simp [htop] at htop'
    | failed htop' hmove' => simp [hmove] at hmove'
    | next htop' hmove' hrest' =>
      simp only [htop, Option.some.injEq] at htop'
      simp only [hmove, Outcome.done.injEq] at hmove'
      subst htop' hmove'
      obtain ⟨hrecords, hfault⟩ := ih hrest'
      exact ⟨congrArg _ hrecords, hfault⟩

/-- The records that were read, unless there was an error. -/
def result (records : List Record) : Option Error → Except Error (List Record)
  | none => .ok records
  | some e => .error e

/-- A bounded pass reads all there is, if it has more moves than there are records. -/
theorem Reads.drain_eq {s : σ} {records : List Record} {fault : Option Error}
    (h : Reads s records fault) {steps : Nat} (hsteps : records.length < steps) :
    (drain steps s).2 = result records fault := by
  induction h generalizing steps with
  | ended htop =>
    cases steps with
    | zero => rfl
    | succ steps => rw [drain, htop]; rfl
  | failed htop hmove =>
    cases steps with
    | zero => cases hsteps
    | succ steps => rw [drain, htop]; simp only [hmove, result]
  | @next s s' record records fault htop hmove _ ih =>
    cases steps with
    | zero => cases hsteps
    | succ steps =>
      have hrest : (drain steps s').2 = result records fault := ih (by simpa using hsteps)
      rw [drain, htop]
      simp only [hmove]
      revert hrest
      cases drain steps s' with
      | mk last read =>
        intro hrest
        cases fault <;> simp_all [result]

/-- Properties of a state that it keeps whatever is done with it. -/
structure Kept (P : σ → Prop) : Prop where
  seek {s : σ} (range : Range) (projection : Projection) (h : P s) :
    P (Cursor.seek range projection s).state
  advance {s : σ} (h : P s) : P (Cursor.advance s).state
  fork {s : σ} (h : P s) : P (Cursor.fork s)

/-- Cursors whose moves all pass over the same data. -/
class Sized (σ : Type) [Cursor σ] : Prop where
  kept (n : Nat) : Kept fun s : σ => size s = n

theorem size_seek [Sized σ] (range : Range) (projection : Projection) (s : σ) :
    size (seek range projection s).state = size s :=
  (Sized.kept _).seek range projection rfl

theorem size_advance [Sized σ] (s : σ) : size (advance s).state = size s :=
  (Sized.kept _).advance rfl

theorem collect_eq [Sized σ] {range : Range} {s : σ} {records : List Record}
    {fault : Option Error} (h : Opens (seek range .everything s) records fault)
    (hsize : records.length ≤ size s) : (collect range s).2 = result records fault := by
  rw [← size_seek range .everything s] at hsize
  rw [collect]
  cases hseek : seek range .everything s with
  | failed e s' =>
    rw [hseek] at h
    obtain ⟨rfl, rfl⟩ := h
    rfl
  | done s' =>
    rw [hseek] at h hsize
    exact Reads.drain_eq h (Nat.lt_succ_of_le hsize)

end Cursor

end DatedCounts
