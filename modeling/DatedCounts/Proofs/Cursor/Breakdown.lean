import DatedCounts.Proofs.Cursor.Joint
import DatedCounts.Proofs.Cursor.Moves

/-!
# Where a rollup breaks off

A series fails when one of its records does not decode, or else when the combiner refuses its labels. A
rollup shows the sums of all series before the first that fails, and nothing of that series or of a later
one: the move past those sums fails, and every later move does, until the rollup is positioned anew.
-/

namespace DatedCounts

/-! ### Labels of a series -/

def labelSet (series : Series) (records : List Record) : List Bytes :=
  (OrderedSet.ofList (labelsOf series records)).toList

theorem Group.keys_ofSeries (series : Series) (records : List Record) :
    (ofSeries series records).labels.keys = labelSet series records := by
  apply eq_of_pairwise_lt
  · exact List.pairwise_map.2 (ofSeries series records).labels.ascending
  · exact OrderedSet.ascending _
  · intro label
    rw [mem_keys_ofSeries, labelSet, OrderedSet.mem_ofList]

/-! ### Series that fail -/

/-- What decoding a record fails with: the date of a raw record is not text, or else its value is not
well-formed. -/
inductive Record.FailsWith (record : Record) : Error → Error.Kind → Prop
  | date {datatype bytes : Bytes} {fault : Utf8.Fault} (hparts : record.1.parts = .raw datatype bytes)
      (hdate : Text.ofBytes bytes = .error fault) :
      FailsWith record (.rawDateNotText fault record.1) .malformedKey
  | count {datatype bytes : Bytes} {date : Text} {fault : Encoding.Fault}
      (hparts : record.1.parts = .raw datatype bytes) (hdate : Text.ofBytes bytes = .ok date)
      (hvalue : Count.decode record.2 = .error fault) :
      FailsWith record (.encoding fault) .malformedEncoding
  | counts {datatype : Bytes} {fault : Encoding.Fault}
      (hparts : record.1.parts = .aggregated datatype)
      (hvalue : DateMap.decode record.2 = .error fault) :
      FailsWith record (.encoding fault) .malformedEncoding

theorem Record.failsWith_of_counts {record : Record} {e : Error} (h : record.counts = .error e) :
    record.FailsWith e e.kind := by
  rw [counts] at h
  cases hparts : record.1.parts with
  | raw datatype bytes =>
    rw [hparts] at h
    cases hdate : Text.ofBytes bytes with
    | error fault =>
      simp only [hdate, Except.error.injEq] at h
      exact h ▸ .date hparts hdate
    | ok date =>
      cases hvalue : Count.decode record.2 with
      | error fault =>
        simp only [hdate, hvalue, Except.map, Except.mapError, Except.error.injEq] at h
        exact h ▸ .count hparts hdate hvalue
      | ok count => simp [hdate, hvalue, Except.map, Except.mapError] at h
  | aggregated datatype =>
    rw [hparts] at h
    cases hvalue : DateMap.decode record.2 with
    | error fault =>
      simp only [hvalue, Except.mapError, Except.error.injEq] at h
      exact h ▸ .counts hparts hvalue
    | ok counts => simp [hvalue, Except.mapError] at h

/-- Whether a series has a record that does not decode, or labels that the combiner refuses. -/
def Series.Fails (combiner : Option Combiner) (records : List Record) (series : Series) : Prop :=
  (∃ record ∈ seriesOf series records, ¬ record.Decodes) ∨
    ∃ combine e, combiner = some combine ∧ combine (labelSet series records) = .error e

/-- The error that a series fails with: that of its first record that does not decode, and that of the
combiner if all of them do. -/
inductive Series.FailsWith (combiner : Option Combiner) (records : List Record) (series : Series)
    (e : Error) : Prop
  | record {before after : List Record} {record : Record}
      (hsplit : seriesOf series records = before ++ record :: after)
      (hbefore : ∀ earlier ∈ before, earlier.Decodes) (hrecord : record.FailsWith e e.kind)
  | refused {combine : Combiner} (hcombiner : combiner = some combine)
      (hdecodes : ∀ record ∈ seriesOf series records, record.Decodes)
      (hlabels : combine (labelSet series records) = .error e)

theorem Record.FailsWith.not_decodes {record : Record} {e : Error} {kind : Error.Kind}
    (h : record.FailsWith e kind) : ¬ record.Decodes := by
  cases h with
  | date hparts hdate => simp [Decodes, hparts, hdate]
  | count hparts hdate hvalue => simp [Decodes, hparts, hvalue]
  | counts hparts hvalue => simp [Decodes, hparts, hvalue]

section Series

variable {combiner : Option Combiner} {records : List Record} {series : Series}

theorem Series.FailsWith.fails {e : Error} (h : series.FailsWith combiner records e) :
    series.Fails combiner records := by
  cases h with
  | @record before after record hsplit _ hrecord =>
    exact .inl ⟨record, by simp [hsplit], hrecord.not_decodes⟩
  | refused hcombiner _ hlabels => exact .inr ⟨_, e, hcombiner, hlabels⟩

namespace Group

theorem records_eq_error {e : Error} (h : (ofSeries series records).records combiner = .error e) :
    ∃ combine, combiner = some combine ∧ combine (labelSet series records) = .error e := by
  cases combiner with
  | none => cases h
  | some combine =>
    rw [records_some_eq_error, keys_ofSeries] at h
    exact ⟨combine, rfl, h⟩

theorem failsWith_of_outcome {e : Error} (h : outcome combiner records series = .error e) :
    series.FailsWith combiner records e := by
  rw [outcome] at h
  cases hfault : (seriesOf series records).findSome? Record.fault? with
  | some e' =>
    rw [hfault] at h
    cases h
    obtain ⟨before, record, after, hsplit, hrecord, hbefore⟩ := List.findSome?_eq_some_iff.1 hfault
    exact .record hsplit (fun earlier hearlier => Record.fault?_eq_none.1 (hbefore earlier hearlier))
      (Record.failsWith_of_counts (Record.fault?_eq_some.1 hrecord))
  | none =>
    rw [hfault] at h
    obtain ⟨combine, hcombiner, hlabels⟩ := records_eq_error h
    exact .refused hcombiner
      (fun record hrecord =>
        Record.fault?_eq_none.1 (List.findSome?_eq_none_iff.1 hfault record hrecord))
      hlabels

theorem exists_sums_iff : (∃ sums, outcome combiner records series = .ok sums) ↔
    ¬ series.Fails combiner records := by
  constructor
  · rintro ⟨sums, hsums⟩ (⟨record, hrecord, hfails⟩ | ⟨combine, e, rfl, hlabels⟩)
    · exact hfails ((outcome_eq_ok hsums).1 record hrecord)
    · obtain ⟨label, hlabel, _⟩ := records_some_eq_ok.1 (outcome_eq_ok hsums).2
      rw [keys_ofSeries, hlabels] at hlabel
      cases hlabel
  · intro hnot
    cases hout : outcome combiner records series with
    | ok sums => exact ⟨sums, rfl⟩
    | error e => exact absurd (failsWith_of_outcome hout).fails hnot

instance : Decidable (series.Fails combiner records) :=
  decidable_of_iff (¬ (outcome combiner records series).toOption.isSome) <| by
    rw [← not_iff_not, ← exists_sums_iff, Decidable.not_not]
    cases outcome combiner records series <;> simp [Except.toOption]

end Group

end Series

/-! ### Sums of series -/

/-- What it takes for a record to be among the sums of its series: it sums up a cell or, when labels are
combined, all records of the series, under what their labels are combined to. -/
def IsSum (combiner : Option Combiner) (records : List Record) (sums : Record) : Prop :=
  match combiner with
  | none => SumsUp records sums
  | some combine => TotalOf (seriesOf sums.1.series records) sums ∧
      combine (labelSet sums.1.series records) = .ok sums.1.visibility

theorem IsSum.series_mem {combiner : Option Combiner} {records : List Record} {sums : Record}
    (h : IsSum combiner records sums) : sums.1.series ∈ seriesIn records := by
  rw [mem_seriesIn]
  cases combiner with
  | none =>
    obtain ⟨record, hrecord, _⟩ := TotalOf.newest h
    obtain ⟨hmem, hcell⟩ := List.mem_filter.1 hrecord
    exact ⟨record, hmem, (Prod.mk.inj (of_decide_eq_true hcell)).1⟩
  | some combine =>
    obtain ⟨record, hrecord, _⟩ := h.1.newest
    exact ⟨record, mem_seriesOf.1 hrecord⟩

namespace Group

variable {records : List Record} {series : Series}

theorem mem_recordsByLabel_iff {sums : Record} :
    sums ∈ (ofSeries series records).recordsByLabel ↔
      sums.1.series = series ∧ SumsUp records sums := by
  rw [mem_recordsByLabel_ofSeries]
  constructor
  · rintro ⟨member, hmember, rfl, rfl⟩
    exact ⟨(Prod.mk.inj (Key.total_cell member.1 records)).1, sumsUp_total hmember⟩
  · rintro ⟨rfl, hsums⟩
    obtain ⟨member, hmember, _⟩ := hsums.newest
    obtain ⟨hmem, hmatch⟩ := List.mem_filter.1 hmember
    have hcell : member.1.cell = sums.1.cell := of_decide_eq_true hmatch
    have htotal := sumsUp_total hmem
    rw [SumsUp, Key.total_cell, hcell] at htotal
    obtain ⟨hseries, hvisibility⟩ := Prod.mk.inj ((Key.total_cell member.1 records).trans hcell)
    obtain ⟨hsame, _⟩ := Prod.mk.inj hcell
    exact ⟨member, hmem, hsame,
      TotalOf.unique hsums htotal hseries.symm hvisibility.symm⟩

theorem totalOf_record (hseries : series ∈ seriesIn records) (label : Bytes) :
    let group := ofSeries series records
    let sums := group.record label group.union.1 group.union.2
    sums.1.series = series ∧ sums.1.visibility = label ∧ TotalOf (seriesOf series records) sums := by
  obtain ⟨member, hmember, rfl⟩ := mem_seriesIn.1 hseries
  intro group sums
  have hsums : sums = (group.series.key label group.union.2, group.union.1.encode) := rfl
  have hmem : member ∈ seriesOf member.1.series records := mem_seriesOf.2 ⟨hmember, rfl⟩
  rw [hsums, series_ofSeries, union_ofSeries]
  exact ⟨member.1.series_key _ _, rfl, totalOf_sum member.1 label (List.ne_nil_of_mem hmem)⟩

theorem mem_outcome_iff {combiner : Option Combiner} (hseries : series ∈ seriesIn records)
    {out : List Record} (h : outcome combiner records series = .ok out) {sums : Record} :
    sums ∈ out ↔ sums.1.series = series ∧ IsSum combiner records sums := by
  have hrecords := (outcome_eq_ok h).2
  cases combiner with
  | none =>
    cases hrecords
    exact mem_recordsByLabel_iff
  | some combine =>
    obtain ⟨label, hlabels, rfl⟩ := records_some_eq_ok.1 hrecords
    rw [keys_ofSeries] at hlabels
    obtain ⟨hsame, hlabel, htotal⟩ := totalOf_record hseries label
    rw [List.mem_singleton]
    constructor
    · rintro rfl
      refine ⟨hsame, ?_, ?_⟩
      · rwa [hsame]
      · rw [hsame, hlabel, hlabels]
    · rintro ⟨rfl, hsums, hcombined⟩
      rw [hlabels] at hcombined
      exact hsums.unique htotal hsame.symm (hlabel.trans (Except.ok.inj hcombined)).symm

end Group

namespace Rollup

variable {σ : Type} [Cursor σ]

/-! ### Moves that fail -/

private theorem pending_of_nextGroup {s s' : Rollup σ} {e : Error} (hpending : s.pending = [])
    (h : nextGroup s = .failed e s') : s'.pending = [] := by
  rw [nextGroup] at h
  split at h
  · cases h
  · next key value _ =>
    have hgather := pending_gather (Cursor.size s.source + 1) (.ofKey key) s
    rw [hpending] at hgather
    split at h
    · next heq =>
      cases h
      rwa [heq] at hgather
    · next heq =>
      rw [heq] at hgather
      split at h
      · cases h
        exact hgather
      · cases h

theorem top?_of_seek_failed {s s' : Rollup σ} {e : Error} {range : Range} {projection : Projection}
    (h : Cursor.seek range projection s = .failed e s') : Cursor.top? s' = none := by
  suffices hpending : s'.pending = [] from congrArg List.head? hpending
  change seek range projection s = _ at h
  rw [seek] at h
  cases hseek : Cursor.seek range.widened projection s.source with
  | done source =>
    simp only [hseek, Outcome.andThen] at h
    exact pending_of_nextGroup rfl h
  | failed e' source =>
    simp only [hseek, Outcome.andThen] at h
    cases h
    rfl

theorem top?_of_advance_failed {s s' : Rollup σ} {e : Error}
    (h : Cursor.advance s = .failed e s') : Cursor.top? s' = none := by
  suffices hpending : s'.pending = [] from congrArg List.head? hpending
  change advance s = _ at h
  rw [advance] at h
  split at h
  · next hnone =>
    cases h
    exact hnone
  · exact pending_of_nextGroup rfl h
  · cases h

/-- Where a move after a seek fails, a rollup is left without a record. -/
theorem top?_of_moves_failed {s s' : Rollup σ} {e : Error} {range : Range} {projection : Projection}
    {n : Nat} (h : Cursor.moves (Cursor.seek range projection s) n = .failed e s') :
    Cursor.top? s' = none := by
  cases n with
  | zero => exact top?_of_seek_failed h
  | succ n => exact top?_of_advance_failed h

/-! ### The pass up to the first series that fails -/

theorem mem_flatMap_part_iff {combiner : Option Combiner} {records : List Record}
    {before after : List Series} {bad : Series} (hsplit : seriesIn records = before ++ bad :: after)
    (hbefore : ∀ series ∈ before, ∃ out, Group.outcome combiner records series = .ok out)
    {sums : Record} : sums ∈ before.flatMap (part combiner records) ↔
      compare sums.1.series bad = .lt ∧ IsSum combiner records sums := by
  rw [List.mem_flatMap]
  constructor
  · rintro ⟨series, hseries, hsums⟩
    obtain ⟨out, hout⟩ := hbefore series hseries
    obtain ⟨hmem, hlt⟩ := (mem_before_iff hsplit).1 hseries
    rw [part_of_ok hout, Group.mem_outcome_iff hmem hout] at hsums
    obtain ⟨rfl, hsums⟩ := hsums
    exact ⟨hlt, hsums⟩
  · rintro ⟨hlt, hsums⟩
    have hseries := (mem_before_iff hsplit).2 ⟨hsums.series_mem, hlt⟩
    obtain ⟨out, hout⟩ := hbefore _ hseries
    refine ⟨_, hseries, ?_⟩
    rw [part_of_ok hout, Group.mem_outcome_iff hsums.series_mem hout]
    exact ⟨rfl, hsums⟩

/-- Over a store, a rollup shows the sums of the series before the first that fails, one by one. The next
move fails as that series does and leaves no record in view, and so does every move after it. -/
theorem breaks_off (s : Rollup Store) (range : Range) (projection : Projection) {member : Record}
    (hmember : member ∈ Store.within s.source.data range.widened projection)
    (hfails : member.1.series.Fails s.combiner (Store.within s.source.data range.widened projection))
    (hfirst : ∀ other ∈ Store.within s.source.data range.widened projection,
      compare other.1.series member.1.series = .lt →
        ¬ other.1.series.Fails s.combiner (Store.within s.source.data range.widened projection)) :
    let records := Store.within s.source.data range.widened projection
    let moves := Cursor.moves (Cursor.seek range projection s)
    ∃ out e broken, Ascending out ∧
      (∀ sums, sums ∈ out ↔
        compare sums.1.series member.1.series = .lt ∧ IsSum s.combiner records sums) ∧
      (∀ n (hn : n < out.length),
        ∃ shown, moves n = .done shown ∧ Cursor.top? shown = some out[n]) ∧
      moves out.length = .failed e broken ∧ member.1.series.FailsWith s.combiner records e ∧
      Cursor.top? broken = none ∧
      ∀ n, out.length < n → ∃ fatal, fatal.kind = .fatal ∧ moves n = .failed fatal broken := by
  intro records moves
  have hascending : Ascending records := Store.within_ascending _ _ _
  obtain ⟨before, after, hsplit⟩ := List.append_of_mem (mem_seriesIn.2 ⟨member, hmember, rfl⟩)
  have hbefore : ∀ series ∈ before, ∃ out, Group.outcome s.combiner records series = .ok out := by
    intro series hseries
    obtain ⟨hmem, hlt⟩ := (mem_before_iff hsplit).1 hseries
    obtain ⟨other, hother, rfl⟩ := mem_seriesIn.1 hmem
    exact Group.exists_sums_iff.2 (hfirst other hother hlt)
  cases hbad : Group.outcome s.combiner records member.1.series with
  | ok sums => exact absurd hfails (Group.exists_sums_iff.1 ⟨sums, hbad⟩)
  | error e =>
    have hopens := opens_seek_store (s := s) rfl range projection
    simp only at hopens
    rw [reading_of_error hascending hsplit hbefore hbad] at hopens
    obtain ⟨broken, hbroken⟩ := hopens.moves_fault
    have htop := top?_of_moves_failed hbroken
    have hmem : ∀ series ∈ before, series ∈ seriesIn records :=
      fun series hseries => ((mem_before_iff hsplit).1 hseries).1
    refine ⟨_, e, broken, flatMap_part_ascending (before_ascending hsplit) hmem,
      fun sums => mem_flatMap_part_iff hsplit hbefore, fun n hn => hopens.moves_of_lt hn, hbroken,
      Group.failsWith_of_outcome hbad, htop, fun n hn => ?_⟩
    obtain ⟨reader, hlast⟩ := Cursor.moves_of_none (congrArg Outcome.state hbroken) htop hn
    exact ⟨_, rfl, hlast⟩

def sole : Combiner
  | [label] => .ok label
  | _ => .error (.refused "more than one label")

/-- Counts of three series: the second has two labels and a date that is not text, and a count of the third
is cut off within its encoding. -/
def corrupted : OrderedMap Key Bytes := .ofList
  [(⟨[1], [2], [100, 0, 49], [97], 3⟩, [5]),
    (⟨[1], [2], [100, 0, 50], [97], 4⟩, [6]),
    (⟨[1], [2], [100, 101, 0, 49], [97], 7⟩, [7]),
    (⟨[1], [2], [100, 101, 0, 255], [98], 7⟩, [8]),
    (⟨[1], [3], [100, 0, 49], [97], 2⟩, [128])]

theorem breaks_off_corrupted :
    let s : Rollup Store := ofSource (some sole) (Store.ofData corrupted)
    let records := Store.within corrupted Range.all.widened .everything
    let member : Record := (⟨[1], [2], [100, 101, 0, 49], [97], 7⟩, [7])
    let moves := Cursor.moves (Cursor.seek .all .everything s)
    member ∈ records ∧ member.1.series.Fails s.combiner records ∧
    (∀ other ∈ records, compare other.1.series member.1.series = .lt →
      ¬ other.1.series.Fails s.combiner records) ∧
    ∃ out e broken, Ascending out ∧
      (∀ sums, sums ∈ out ↔
        compare sums.1.series member.1.series = .lt ∧ IsSum s.combiner records sums) ∧
      (∀ n (hn : n < out.length),
        ∃ shown, moves n = .done shown ∧ Cursor.top? shown = some out[n]) ∧
      moves out.length = .failed e broken ∧ member.1.series.FailsWith s.combiner records e ∧
      Cursor.top? broken = none ∧
      ∀ n, out.length < n → ∃ fatal, fatal.kind = .fatal ∧ moves n = .failed fatal broken := by
  intro s records member moves
  have hmember : member ∈ records := by decide
  have hfails : member.1.series.Fails s.combiner records := by decide
  have hfirst : ∀ other ∈ records, compare other.1.series member.1.series = .lt →
      ¬ other.1.series.Fails s.combiner records := by decide
  exact ⟨hmember, hfails, hfirst, breaks_off s .all .everything hmember hfails hfirst⟩

end Rollup

end DatedCounts
