import DatedCounts.Proofs.Cursor.Sifting

/-!
# What a sieve shows after any moves

Whatever is done with a sieve, and whichever of the moves fail, the record that it shows belongs to the
range and the families of the last seek. The filter accepts it, unless the last move failed at it: such
a record, in aggregated form, stays in view.
-/

namespace DatedCounts

namespace Cursor

variable {σ : Type} [Cursor σ]

/-- The states that calls lead to from a first one, with the range and the families of the last seek and
the error of the last move. -/
inductive Reached (start : σ) : Option (Range × Projection) → Option Error → σ → Prop
  | start : Reached start none none start
  | seek {last : Option (Range × Projection)} {fault : Option Error} {s : σ}
      (h : Reached start last fault s) (range : Range) (projection : Projection) :
      Reached start (some (range, projection)) (Cursor.seek range projection s).error?
        (Cursor.seek range projection s).state
  | advance {last : Option (Range × Projection)} {fault : Option Error} {s : σ}
      (h : Reached start last fault s) :
      Reached start last (Cursor.advance s).error? (Cursor.advance s).state
  | fork {last : Option (Range × Projection)} {fault : Option Error} {s : σ}
      (h : Reached start last fault s) : Reached start last fault (Cursor.fork s)

theorem Reached.keeps {P : σ → Prop} (hP : Kept P) {start s : σ}
    {last : Option (Range × Projection)} {fault : Option Error} (hstart : P start)
    (h : Reached start last fault s) : P s := by
  induction h with
  | start => exact hstart
  | seek _ range projection ih => exact hP.seek range projection ih
  | advance _ ih => exact hP.advance ih
  | fork _ ih => exact hP.fork ih

end Cursor

namespace Sieve

variable {data : OrderedMap Key Bytes} {filter : Filter} {maxNext : Nat} {range : Range}
  {projection : Projection} {last : Option (Range × Projection)} {fault : Option Error}
  {s : Sieve Store}

/-- A sieve that stands in the range of the last seek, at a record that is accepted or that the last move
failed at. -/
def Exposes (data : OrderedMap Key Bytes) (filter : Filter) (maxNext : Nat)
    (last : Option (Range × Projection)) (fault : Option Error) (s : Sieve Store) : Prop :=
  ∃ range projection ahead, Stands data filter maxNext range projection ahead s ∧
    ∀ record ∈ ahead.head?, last = some (range, projection) ∧
      match fault with
      | none => filter.check record.1 = .ok .accept
      | some e => filter.check record.1 = .error e

theorem Follows.exposes {records : List Record} {move : Outcome (Sieve Store)}
    (h : Follows data filter maxNext range projection (sift filter maxNext 0 records) move) :
    Exposes data filter maxNext (some (range, projection)) move.error? move.state := by
  refine ⟨range, projection, _, h.1, fun record hrecord => ⟨rfl, ?_⟩⟩
  rw [h.2]
  exact check_head_sift 0 records record hrecord

theorem exposes_of_reached
    (hnul : ∀ accepted ∈ filter.datatypes.toList, Qualifier.separator ∉ accepted)
    (h : Cursor.Reached (ofSource filter maxNext (Store.ofData data)) last fault s) :
    Exposes data filter maxNext last fault s := by
  induction h with
  | start => exact ⟨.all, .everything, [], stands_ofSource filter maxNext data, by simp⟩
  | seek hreached range projection _ =>
    have hover := hreached.keeps (kept (Store.kept data) filter maxNext) ⟨rfl, rfl, rfl⟩
    exact (seek_follows hnul hover range projection).exposes
  | @advance last fault s _ ih =>
    obtain ⟨range, projection, ahead, hstands, hhead⟩ := ih
    cases ahead with
    | nil =>
      have hexhausted : Cursor.advance s = .failed (.exhausted .sieve) s := by
        change advance s = _
        rw [advance, show s.top? = none from hstands.top?_eq]
      rw [hexhausted]
      exact ⟨range, projection, [], hstands, by simp⟩
    | cons record rest =>
      rw [(hhead record rfl).1]
      exact (advance_follows hnul hstands).exposes
  | fork _ ih =>
    obtain ⟨range, projection, ahead, hstands, hhead⟩ := ih
    exact ⟨range, projection, ahead, hstands.fork, hhead⟩

/-- In every state that calls lead to, a sieve shows no record but one of the range and the families of
the last seek, which is accepted, or is the one in aggregated form that the last move failed at. -/
theorem top_accepted_or_refused {config : Filter.Config}
    (hfilter : Filter.ofConfig config = .ok filter)
    (h : Cursor.Reached (ofSource filter config.maxNext (Store.ofData data)) last fault s)
    {record : Record} (htop : Cursor.top? s = some record) :
    ∃ range projection, last = some (range, projection) ∧
      record ∈ Store.within data range projection ∧
      (fault = none ∧ config.accepts record.1 ∨
        fault = some (.noSeparator record.1.qualifier) ∧ record.1.parts.isRaw = false) := by
  obtain ⟨range, projection, ahead, hstands, hhead⟩ :=
    exposes_of_reached (Filter.separator_notMem_of_mem hfilter) h
  have hrecord : record ∈ ahead.head? := by
    rw [← hstands.top?_eq]
    exact htop
  obtain ⟨hlast, hcheck⟩ := hhead record hrecord
  refine ⟨range, projection, hlast, hstands.mem_within (List.mem_of_mem_head? hrecord), ?_⟩
  cases fault with
  | none =>
    rw [← Filter.accepts_eq hfilter]
    exact .inl ⟨rfl, Filter.accepts_of_accept hcheck⟩
  | some e =>
    obtain ⟨haggregated, rfl⟩ := Filter.check_eq_error_iff.1 hcheck
    exact .inr ⟨rfl, haggregated⟩

def trailed : OrderedMap Key Bytes := .ofList
  [(⟨[1], [2], 97 :: 0 :: Utf8.encode "20200615".toList, [], 1⟩, [1]),
    (⟨[1], [2], [98], [], 1⟩, [0])]

def year : Filter.Config := ⟨∅, some "20200101", some "20201231", 0⟩

def yearFilter : Filter := ⟨∅, Utf8.encode "20200101".toList, Utf8.encode "20201231".toList⟩

theorem ofConfig_year : Filter.ofConfig year = .ok yearFilter := by
  cbv

/-- A sieve that was positioned on all records, advanced to where the move fails, and forked. -/
def stranded : Sieve Store :=
  let top := (Cursor.seek .all .everything (ofSource yearFilter 0 (Store.ofData trailed))).state
  Cursor.fork (Cursor.advance top).state

theorem reached_stranded : Cursor.Reached (ofSource yearFilter year.maxNext (Store.ofData trailed))
    (some (.all, .everything)) (some (.noSeparator [98])) stranded :=
  (Cursor.Reached.start.seek .all .everything).advance.fork

theorem top?_stranded : Cursor.top? stranded = some (⟨[1], [2], [98], [], 1⟩, [0]) := by
  rfl

theorem top_accepted_or_refused_stranded :
    Filter.ofConfig year = .ok yearFilter ∧
      Cursor.Reached (ofSource yearFilter year.maxNext (Store.ofData trailed))
        (some (.all, .everything)) (some (.noSeparator [98])) stranded ∧
      Cursor.top? stranded = some (⟨[1], [2], [98], [], 1⟩, [0]) ∧
      ∃ range projection, some (Range.all, Projection.everything) = some (range, projection) ∧
        (⟨[1], [2], [98], [], 1⟩, [0]) ∈ Store.within trailed range projection ∧
        (some (Error.noSeparator [98]) = none ∧ year.accepts ⟨[1], [2], [98], [], 1⟩ ∨
          some (Error.noSeparator [98]) = some (.noSeparator [98]) ∧
            (Key.mk [1] [2] [98] [] 1).parts.isRaw = false) :=
  ⟨ofConfig_year, reached_stranded, top?_stranded,
    top_accepted_or_refused ofConfig_year reached_stranded top?_stranded⟩

/-- A record that a move failed at stays in view, though the filter does not accept it. -/
theorem not_top_accepted : ¬ ∀ (data : OrderedMap Key Bytes) (config : Filter.Config) (filter : Filter)
    (last : Option (Range × Projection)) (fault : Option Error) (s : Sieve Store) (record : Record),
    Filter.ofConfig config = .ok filter →
    Cursor.Reached (ofSource filter config.maxNext (Store.ofData data)) last fault s →
    Cursor.top? s = some record →
    ∃ range projection, last = some (range, projection) ∧
      record ∈ Store.within data range projection ∧ record.1.parts.isRaw ∧
      config.accepts record.1 := by
  intro h
  obtain ⟨_, _, _, _, hraw, _⟩ :=
    h trailed year yearFilter _ _ stranded _ ofConfig_year reached_stranded top?_stranded
  exact absurd hraw (by decide)

end Sieve

end DatedCounts
