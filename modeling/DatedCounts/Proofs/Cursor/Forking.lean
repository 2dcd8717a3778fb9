import DatedCounts.Proofs.Cursor.Ascent
import DatedCounts.Proofs.Cursor.Counting
import DatedCounts.Proofs.Cursor.Exposure

/-!
# Seeks and forks

A seek forgets all that a stack did before, and a fork goes on as the stack would have done. In both cases
there is another state of the stack that differs in its counters only, so the same calls show the same and
count the same from then on.
-/

namespace DatedCounts

namespace Cursor

variable {σ : Type} [Cursor σ]

/-- What each of some calls shows: the error that it ends with, if it fails, and the record that the
cursor then stands on. -/
def sights (s : σ) : List Call → List (Option Error × Option Record)
  | [] => []
  | next :: calls =>
    let move := call s next
    (move.error?, top? move.state) :: sights move.state calls

section Commutes

variable {f : σ → σ} (h : Commutes f)
include h

theorem Commutes.call (s : σ) (next : Call) : Cursor.call (f s) next = (Cursor.call s next).map f := by
  cases next with
  | seek range projection => exact h.seek range projection s
  | advance => exact h.advance s

theorem Commutes.sights (s : σ) (calls : List Call) :
    Cursor.sights (f s) calls = Cursor.sights s calls := by
  induction calls generalizing s with
  | nil => rfl
  | cons next calls ih =>
    simp only [Cursor.sights, h.call, Outcome.error?_map, Outcome.state_map, h.top?, ih]

theorem Commutes.after (s : σ) (calls : List Call) :
    Cursor.after (f s) calls = f (Cursor.after s calls) := by
  induction calls generalizing s with
  | nil => rfl
  | cons next calls ih =>
    have hstate : (Cursor.call (f s) next).state = f (Cursor.call s next).state := by
      rw [h.call, Outcome.state_map]
    calc Cursor.after (f s) (next :: calls)
        = Cursor.after (f (Cursor.call s next).state) calls := congrArg (Cursor.after · calls) hstate
      _ = f (Cursor.after s (next :: calls)) := ih _

end Commutes

/-! ### Cursors that take turns -/

inductive Side where
  | original
  | fork
  deriving DecidableEq

def Side.own {α : Type} (side : Side) (turns : List (Side × α)) : List α :=
  turns.filterMap fun turn => if turn.1 = side then some turn.2 else none

def forked (s : σ) : Side → σ
  | .original => s
  | .fork => fork s

/-- What calls on two cursors show, made on either of them in any turns, and the states that they lead
to. -/
def play (states : Side → σ) :
    List (Side × Call) → List (Side × Option Error × Option Record) × (Side → σ)
  | [] => ([], states)
  | (side, next) :: turns =>
    let move := call (states side) next
    let (shown, last) := play (Function.update states side move.state) turns
    ((side, move.error?, top? move.state) :: shown, last)

/-- A cursor is not touched by the turns of the other one. -/
theorem play_own (states : Side → σ) (turns : List (Side × Call)) (side : Side) :
    side.own (play states turns).1 = sights (states side) (side.own turns) ∧
      (play states turns).2 side = after (states side) (side.own turns) := by
  induction turns generalizing states with
  | nil => exact ⟨rfl, rfl⟩
  | cons turn turns ih =>
    obtain ⟨turned, next⟩ := turn
    obtain ⟨hshown, hlast⟩ := ih (Function.update states turned (call (states turned) next).state)
    by_cases hside : turned = side
    · subst hside
      rw [Function.update_self] at hshown hlast
      simp only [play, Side.own, List.filterMap_cons, if_pos, sights] at hshown ⊢
      exact ⟨congrArg _ hshown, hlast⟩
    · rw [Function.update_of_ne (Ne.symm hside)] at hshown hlast
      simp only [play, Side.own, List.filterMap_cons, if_neg hside] at hshown ⊢
      exact ⟨hshown, hlast⟩

end Cursor

namespace Stack

theorem seek_eq_map {data : OrderedMap Key Bytes} {layers : List Layer} {s : Stack layers}
    (hs : IsOver data layers s) (range : Range) (projection : Projection) :
    Cursor.seek range projection s =
      (Cursor.seek range projection (ofData data layers)).map (credit layers s) := by
  induction layers generalizing range with
  | nil => exact Store.seek_eq_map (Store.stats s) hs rfl
  | cons layer below ih =>
    have hbelow := commutes_credit below
    cases layer with
    | sieve filter maxNext =>
      obtain ⟨hsource, hfilter, hmax⟩ := hs
      exact Sieve.seek_eq_map (hbelow _) (Sieve.stats s) (ih hsource range) hfilter hmax rfl
    | rollup combiner =>
      obtain ⟨hsource, hcombiner⟩ := hs
      exact Rollup.seek_eq_map (hbelow _) (Rollup.stats s) (ih hsource range.widened) hcombiner rfl

/-- Whatever was called before, and whichever of the calls failed, a seek and the calls after it show what
they show on a new stack over the same data, and every layer counts the same from the seek on. -/
theorem seek_forgets {data : OrderedMap Key Bytes} {layers : List Layer}
    {last : Option (Range × Projection)} {fault : Option Error} {s : Stack layers}
    (h : Cursor.Reached (ofData data layers) last fault s) (range : Range) (projection : Projection)
    (later : List Cursor.Call) :
    let calls := .seek range projection :: later
    Cursor.sights s calls = Cursor.sights (ofData data layers) calls ∧
      ∃ gain, stats layers (Cursor.after s calls) =
          (stats layers s).zipWith LayerStats.plus gain ∧
        stats layers (Cursor.after (ofData data layers) calls) =
          (stats layers (ofData data layers)).zipWith LayerStats.plus gain := by
  intro calls
  have hover := h.keeps (kept_isOver data layers) (isOver_ofData data layers)
  have hseek := seek_eq_map hover range projection
  have hcommutes := commutes_credit layers s
  let afresh := (Cursor.seek range projection (ofData data layers)).state
  have hstate : (Cursor.seek range projection s).state = credit layers s afresh := by
    rw [hseek, Outcome.state_map]
  refine ⟨?_, stats layers (Cursor.after afresh later), ?_, (plus_stats_ofData data layers _).symm⟩
  · have herror : (Cursor.seek range projection s).error? =
        (Cursor.seek range projection (ofData data layers)).error? := by
      rw [hseek, Outcome.error?_map]
    simp only [calls, Cursor.sights, Cursor.call, herror, hstate, hcommutes.top?, hcommutes.sights,
      afresh]
  · have hafter : Cursor.after s calls = credit layers s (Cursor.after afresh later) := by
      change Cursor.after (Cursor.seek range projection s).state later = _
      rw [hstate, hcommutes.after]
    rw [hafter, stats_credit]

/-- A stack that was positioned where its first group cannot be read, and then forked. -/
def stalled : Stack yearly :=
  Cursor.fork (Cursor.seek .all .everything (ofData Sieve.trailed yearly)).state

theorem reached_stalled : Cursor.Reached (ofData Sieve.trailed yearly) (some (.all, .everything))
    (some (.noSeparator [98])) stalled :=
  (Cursor.Reached.start.seek .all .everything).fork

def readable : Range := ⟨.unbounded, .excluded ⟨[1], [2], [98], [], 1⟩⟩

theorem seek_forgets_stalled :
    Cursor.Reached (ofData Sieve.trailed yearly) (some (.all, .everything))
        (some (.noSeparator [98])) stalled ∧
      let calls := [.seek readable .everything, .advance]
      (Cursor.sights stalled calls).map (·.1) = [none, none] ∧
      Cursor.sights stalled calls = Cursor.sights (ofData Sieve.trailed yearly) calls ∧
        ∃ gain, stats yearly (Cursor.after stalled calls) =
            (stats yearly stalled).zipWith LayerStats.plus gain ∧
          stats yearly (Cursor.after (ofData Sieve.trailed yearly) calls) =
            (stats yearly (ofData Sieve.trailed yearly)).zipWith LayerStats.plus gain :=
  ⟨reached_stalled, rfl, seek_forgets reached_stalled readable .everything [.advance]⟩

/-- On every fork the calls show what they would have shown on the original, and every layer of the fork
counts what that of the original would have counted, in whatever turns the two are called. -/
theorem fork_continues (layers : List Layer) (s : Stack layers)
    (turns : List (Cursor.Side × Cursor.Call)) :
    let played := Cursor.play (Cursor.forked s) turns
    Cursor.top? (Cursor.fork s) = Cursor.top? s ∧
      (∀ side : Cursor.Side, side.own played.1 = Cursor.sights s (side.own turns)) ∧
      played.2 .original = Cursor.after s (Cursor.Side.original.own turns) ∧
      stats layers (Cursor.after s (Cursor.Side.fork.own turns)) =
        (stats layers s).zipWith LayerStats.plus (stats layers (played.2 .fork)) := by
  intro played
  have hcommutes := commutes_credit layers s
  have hplayed := Cursor.play_own (Cursor.forked s) turns
  refine ⟨?_, ?_, (hplayed .original).2, ?_⟩
  · rw [← hcommutes.top?, credit_fork]
  · intro side
    cases side with
    | original => exact (hplayed .original).1
    | fork =>
      rw [(hplayed .fork).1, ← hcommutes.sights]
      exact congrArg (Cursor.sights · _) (credit_fork layers s)
  · rw [(hplayed .fork).2, ← stats_credit, ← hcommutes.after]
    exact congrArg (stats layers <| Cursor.after · _) (credit_fork layers s).symm

end Stack

end DatedCounts
