import DatedCounts.Key.Qualifier
import DatedCounts.Proofs.Cursor.Reading
import DatedCounts.Proofs.Cursor.Store

/-!
# Cursors that serve a selection of data

A cursor serves those records of some data that have a kind of key when each seek, whatever was done
before, leads to the records of that kind in the range and the chosen families, one by one and in order.
A move may fail on the way, but never when it passes over keys of raw records only.
-/

namespace DatedCounts

namespace Outcome

variable {σ τ : Type} {safe : Prop}

/-- Whether a move ends in a state with a property, or fails where it may. -/
def Meets (move : Outcome σ) (safe : Prop) (P : σ → Prop) : Prop :=
  match move with
  | .done s => P s
  | .failed _ _ => ¬ safe

theorem Meets.imp {move : Outcome σ} {safe' : Prop} {P Q : σ → Prop} (h : move.Meets safe P)
    (hsafe : safe' → safe) (hP : ∀ s, P s → Q s) : move.Meets safe' Q := by
  cases move with
  | done s => exact hP s h
  | failed e s => exact fun hsafe' => h (hsafe hsafe')

theorem Meets.and_state {move : Outcome σ} {P Q : σ → Prop} (h : move.Meets safe P)
    (hstate : Q move.state) : move.Meets safe fun s => P s ∧ Q s := by
  cases move with
  | done s => exact ⟨h, hstate⟩
  | failed e s => exact h

theorem Meets.andThen {move : Outcome σ} {P : σ → Prop} {Q : τ → Prop} {f : σ → Outcome τ}
    {g : σ → τ} (h : move.Meets safe P) (hf : ∀ s, P s → (f s).Meets safe Q) :
    (move.andThen f g).Meets safe Q := by
  cases move with
  | done s => exact hf s h
  | failed e s => exact h

end Outcome

namespace Cursor

variable {σ : Type} [Cursor σ] {safe : Prop}

/-- Whether a state shows some records one by one, up to a move that fails where it may. -/
def Shows (safe : Prop) : List Record → σ → Prop
  | [], s => top? s = none
  | record :: rest, s => top? s = some record ∧ (advance s).Meets safe (Shows safe rest)

theorem Shows.top?_eq {records : List Record} {s : σ} (h : Shows safe records s) :
    top? s = records.head? := by
  cases records with
  | nil => exact h
  | cons record rest => exact h.1

theorem Shows.imp {safe' : Prop} (hsafe : safe' → safe) {records : List Record} {s : σ}
    (h : Shows safe records s) : Shows safe' records s := by
  induction records generalizing s with
  | nil => exact h
  | cons record rest ih => exact ⟨h.1, h.2.imp hsafe fun _ => ih⟩

theorem Shows.eq_of_reads {records out : List Record} {s : σ} (h : Shows safe records s)
    (hreads : Reads s out none) : out = records := by
  induction records generalizing s out with
  | nil =>
    have hnone : top? s = none := h
    cases hreads with
    | ended => rfl
    | next htop => simp [hnone] at htop
  | cons record rest ih =>
    obtain ⟨hsome, hrest⟩ := h
    cases hreads with
    | ended htop => simp [hsome] at htop
    | next htop hmove hreads =>
      rw [hmove] at hrest
      obtain rfl := Option.some.inj (hsome.symm.trans htop)
      rw [ih hrest hreads]

theorem Shows.reads {records : List Record} {s : σ} (h : Shows safe records s) (hsafe : safe) :
    Reads s records none := by
  induction records generalizing s with
  | nil => exact .ended h
  | cons record rest ih =>
    obtain ⟨htop, hrest⟩ := h
    cases hmove : advance s with
    | failed e s' =>
      rw [hmove] at hrest
      exact absurd hsafe hrest
    | done s' =>
      rw [hmove] at hrest
      exact .next htop hmove (ih hrest)

theorem Reads.shows {records : List Record} {s : σ} (h : Reads s records none) :
    Shows safe records s := by
  generalize hfault : none = fault at h
  induction h with
  | ended htop => exact htop
  | failed => cases hfault
  | next htop hmove _ ih =>
    refine ⟨htop, ?_⟩
    rw [hmove]
    exact ih hfault

def RawWithin (data : OrderedMap Key Bytes) (range : Range) (projection : Projection) : Prop :=
  ∀ record ∈ Store.within data range projection, record.1.parts.isRaw

/-- The records in a range and the chosen families that have a kind of key. -/
def content (data : OrderedMap Key Bytes) (keeps : Key → Bool) (range : Range)
    (projection : Projection) : List Record :=
  (Store.within data range projection).filter fun record => keeps record.1

theorem content_true (data : OrderedMap Key Bytes) (range : Range) (projection : Projection) :
    content data (fun _ => true) range projection = Store.within data range projection :=
  List.filter_eq_self.2 fun _ _ => rfl

theorem content_ascending (data : OrderedMap Key Bytes) (keeps : Key → Bool) (range : Range)
    (projection : Projection) : Ascending (content data keeps range projection) :=
  (Store.within_ascending data range projection).filter _

theorem length_content_le (data : OrderedMap Key Bytes) (keeps : Key → Bool) (range : Range)
    (projection : Projection) : (content data keeps range projection).length ≤ data.size :=
  Nat.le_trans (List.length_filter_le _ _) (Store.length_within_le data range projection)

/-- Whether a cursor serves the records of some data that have a kind of key, from all states that a
property describes. -/
structure Serves (data : OrderedMap Key Bytes) (keeps : Key → Bool) (P : σ → Prop) : Prop where
  kept : Kept P
  size {s : σ} (h : P s) : Cursor.size s = data.size
  shows {s : σ} (h : P s) (range : Range) (projection : Projection) :
    (seek range projection s).Meets (RawWithin data range projection)
      (Shows (RawWithin data range projection) (content data keeps range projection))

theorem Serves.opens {data : OrderedMap Key Bytes} {keeps : Key → Bool} {P : σ → Prop}
    (h : Serves data keeps P) {s : σ} (hs : P s) {range : Range} {projection : Projection}
    (hraw : RawWithin data range projection) :
    Opens (seek range projection s) (content data keeps range projection) none := by
  have hshows := h.shows hs range projection
  cases hseek : seek range projection s with
  | done top =>
    rw [hseek] at hshows
    exact Shows.reads hshows hraw
  | failed e s' =>
    rw [hseek] at hshows
    exact absurd hraw hshows

end Cursor

namespace Store

theorem serves (data : OrderedMap Key Bytes) :
    Cursor.Serves data (fun _ => true) fun s : Store => s.data = data where
  kept := kept data
  size h := congrArg OrderedMap.size h
  shows {s} h range projection := by
    subst h
    obtain ⟨top, hseek, hreads⟩ := (s.opens_seek range projection).exists_done
    rw [hseek, Cursor.content_true]
    exact hreads.shows

end Store

end DatedCounts
