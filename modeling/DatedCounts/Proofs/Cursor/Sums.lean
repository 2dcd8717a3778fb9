import DatedCounts.Proofs.Cursor.Groupwise
import DatedCounts.Proofs.Cursor.Store

/-!
# Sums of series

Of records in order a rollup reads the sums of each series, and nothing else, up to the first series that
fails. The sums of a series belong to that series, so they are in the order of the series.
-/

namespace DatedCounts

namespace Group

theorem records_key {group : Group} {combiner : Option Combiner} {out : List Record}
    (h : group.records combiner = .ok out) {sums : Record} (hsums : sums ∈ out) :
    ∃ visibility timestamp, sums.1 = group.series.key visibility timestamp := by
  cases combiner with
  | none =>
    cases h
    obtain ⟨entry, _, rfl⟩ := List.mem_map.1 hsums
    exact ⟨entry.1, entry.2.2, rfl⟩
  | some combine =>
    obtain ⟨visibility, _, rfl⟩ := records_some_eq_ok.1 h
    rw [List.mem_singleton.1 hsums]
    exact ⟨visibility, _, rfl⟩

theorem records_series {key : Key} {records : List Record} {combiner : Option Combiner}
    {out : List Record} (h : (ofSeries key.series records).records combiner = .ok out) {sums : Record}
    (hsums : sums ∈ out) : sums.1.series = key.series := by
  obtain ⟨visibility, timestamp, hkey⟩ := records_key h hsums
  rw [hkey, series_ofSeries, Key.series_key]

theorem records_ascending {group : Group} {combiner : Option Combiner} {out : List Record}
    (h : group.records combiner = .ok out) : Ascending out := by
  cases combiner with
  | none =>
    cases h
    refine List.pairwise_map.2 (group.labels.ascending.imp fun {a b} hlt => ?_)
    simp [record, Key.compare_eq, hlt, Std.ReflCmp.compare_self]
  | some combine =>
    obtain ⟨label, _, rfl⟩ := records_some_eq_ok.1 h
    exact List.pairwise_singleton _ _

theorem outcome_eq_ok {combiner : Option Combiner} {records : List Record} {series : Series}
    {sums : List Record} (h : outcome combiner records series = .ok sums) :
    (∀ record ∈ seriesOf series records, record.Decodes) ∧
      (ofSeries series records).records combiner = .ok sums := by
  rw [outcome] at h
  cases hfault : (seriesOf series records).findSome? Record.fault? with
  | some e =>
    rw [hfault] at h
    cases h
  | none =>
    rw [hfault] at h
    exact ⟨fun record hrecord =>
      Record.fault?_eq_none.1 (List.findSome?_eq_none_iff.1 hfault record hrecord), h⟩

end Group

namespace Rollup

section Parts

variable {combiner : Option Combiner} {records : List Record}

/-- The sums of a series among some records, of which there are none when the series fails. -/
def part (combiner : Option Combiner) (records : List Record) (series : Series) : List Record :=
  match Group.outcome combiner records series with
  | .ok sums => sums
  | .error _ => []

theorem part_of_ok {series : Series} {sums : List Record}
    (h : Group.outcome combiner records series = .ok sums) : part combiner records series = sums := by
  rw [part, h]

theorem series_of_mem_part {series : Series} (hseries : series ∈ seriesIn records) {sums : Record}
    (h : sums ∈ part combiner records series) : sums.1.series = series := by
  obtain ⟨record, _, rfl⟩ := mem_seriesIn.1 hseries
  rw [part] at h
  split at h
  · next hout => exact Group.records_series (Group.outcome_eq_ok hout).2 h
  · cases h

theorem part_ascending (series : Series) : Ascending (part combiner records series) := by
  rw [part]
  split
  · next hout => exact Group.records_ascending (Group.outcome_eq_ok hout).2
  · exact .nil

theorem flatMap_part_ascending {some : List Series} (hsome : some.Pairwise fun a b => compare a b = .lt)
    (hmem : ∀ series ∈ some, series ∈ seriesIn records) :
    Ascending (some.flatMap (part combiner records)) := by
  refine List.pairwise_flatMap.2 ⟨fun series _ => part_ascending series, ?_⟩
  refine hsome.imp_of_mem fun {a b} ha hb hlt sums hsums other hother => ?_
  apply Key.lt_of_series_lt
  rwa [series_of_mem_part (hmem a ha) hsums, series_of_mem_part (hmem b hb) hother]

theorem map_outcome {some : List Series}
    (h : ∀ series ∈ some, ∃ sums, Group.outcome combiner records series = .ok sums) :
    some.map (Group.outcome combiner records) = (some.map (part combiner records)).map .ok := by
  rw [List.map_map]
  refine List.map_congr_left fun series hseries => ?_
  obtain ⟨sums, hsums⟩ := h series hseries
  rw [Function.comp_apply, part_of_ok hsums, hsums]

theorem reading_of_ok (hrecords : Ascending records) (h : ∀ series ∈ seriesIn records,
    ∃ sums, Group.outcome combiner records series = .ok sums) :
    reading combiner records none = ((seriesIn records).flatMap (part combiner records), none) := by
  rw [reading_eq_yields combiner hrecords, map_outcome h, yields_ok, List.flatMap_def]

/-- A rollup reads the sums of the series before the first that fails, and then its error. -/
theorem reading_of_error (hrecords : Ascending records) {before after : List Series} {bad : Series}
    {e : Error} (hsplit : seriesIn records = before ++ bad :: after)
    (hbefore : ∀ series ∈ before, ∃ sums, Group.outcome combiner records series = .ok sums)
    (hbad : Group.outcome combiner records bad = .error e) :
    reading combiner records none = (before.flatMap (part combiner records), some e) := by
  rw [reading_eq_yields combiner hrecords, hsplit, List.map_append, List.map_cons, hbad,
    map_outcome hbefore, yields_error, List.flatMap_def]

theorem exists_first_error (combiner : Option Combiner) (records : List Record) :
    (∀ series ∈ seriesIn records, ∃ sums, Group.outcome combiner records series = .ok sums) ∨
      ∃ before bad after e, seriesIn records = before ++ bad :: after ∧
        (∀ series ∈ before, ∃ sums, Group.outcome combiner records series = .ok sums) ∧
        Group.outcome combiner records bad = .error e := by
  have hok : ∀ series, (Group.outcome combiner records series).isOk →
      ∃ sums, Group.outcome combiner records series = .ok sums := by
    intro series h
    cases hout : Group.outcome combiner records series with
    | ok sums => exact ⟨sums, rfl⟩
    | error e =>
      rw [hout] at h
      cases h
  cases hfind : (seriesIn records).find? fun series =>
      !(Group.outcome combiner records series).isOk with
  | none =>
    refine .inl fun series hseries => hok series ?_
    simpa using List.find?_eq_none.1 hfind series hseries
  | some bad =>
    obtain ⟨hbad, before, after, hsplit, hbefore⟩ := List.find?_eq_some_iff_append.1 hfind
    refine .inr ⟨before, bad, after, ?_⟩
    cases hout : Group.outcome combiner records bad with
    | ok sums =>
      rw [hout] at hbad
      cases hbad
    | error e =>
      exact ⟨e, hsplit, fun series hseries => hok series (by simpa using hbefore series hseries), rfl⟩

theorem reading_snd_eq_none_iff (hrecords : Ascending records) :
    (reading combiner records none).2 = none ↔ ∀ series ∈ seriesIn records,
      ∃ sums, Group.outcome combiner records series = .ok sums := by
  constructor
  · intro hread
    rcases exists_first_error combiner records with hok | ⟨before, bad, after, e, hsplit, hbefore, hbad⟩
    · exact hok
    · rw [reading_of_error hrecords hsplit hbefore hbad] at hread
      cases hread
  · intro hok
    rw [reading_of_ok hrecords hok]

theorem outcome_eq_records (hdecodes : ∀ record ∈ records, record.Decodes)
    (combiner : Option Combiner) (series : Series) :
    Group.outcome combiner records series = (Group.ofSeries series records).records combiner :=
  Group.outcome_of_decodes (fun record hrecord => hdecodes record (mem_seriesOf.1 hrecord).1) combiner

end Parts

/-- Of records in order that decode, a rollup reads the sums of each series, in order. -/
theorem reading_eq (combiner : Option Combiner) {records : List Record} (hrecords : Ascending records)
    (hdecodes : ∀ record ∈ records, record.Decodes)
    (hcombine : ∀ record ∈ records, ∃ out,
      (Group.ofSeries record.1.series records).records combiner = .ok out) :
    ∃ out, reading combiner records none = (out, none) ∧ Ascending out ∧
      ∀ sums, sums ∈ out ↔ ∃ member ∈ records, ∃ part,
        (Group.ofSeries member.1.series records).records combiner = .ok part ∧ sums ∈ part := by
  have houtcome := outcome_eq_records hdecodes combiner
  have hok : ∀ series ∈ seriesIn records,
      ∃ sums, Group.outcome combiner records series = .ok sums := by
    intro series hseries
    obtain ⟨record, hrecord, rfl⟩ := mem_seriesIn.1 hseries
    rw [houtcome]
    exact hcombine record hrecord
  refine ⟨_, reading_of_ok hrecords hok,
    flatMap_part_ascending (seriesIn_ascending records) fun _ => id, fun sums => ?_⟩
  rw [List.mem_flatMap]
  constructor
  · rintro ⟨series, hseries, hsums⟩
    obtain ⟨part, hpart⟩ := hok series hseries
    rw [part_of_ok hpart] at hsums
    obtain ⟨member, hmember, rfl⟩ := mem_seriesIn.1 hseries
    exact ⟨member, hmember, part, houtcome _ ▸ hpart, hsums⟩
  · rintro ⟨member, hmember, part, hpart, hsums⟩
    refine ⟨member.1.series, mem_seriesIn.2 ⟨member, hmember, rfl⟩, ?_⟩
    rwa [part_of_ok ((houtcome _).trans hpart)]

theorem reading_congr (combiner : Option Combiner) {records others : List Record}
    (hrecords : Ascending records) (hothers : Ascending others)
    (hdecodes : ∀ record ∈ records, record.Decodes) (hdecodes' : ∀ record ∈ others, record.Decodes)
    (hseries : ∀ series, (∃ record ∈ records, record.1.series = series) ↔
      ∃ record ∈ others, record.1.series = series)
    (hgroups : ∀ record ∈ others, (Group.ofSeries record.1.series records).records combiner =
      (Group.ofSeries record.1.series others).records combiner) :
    reading combiner records none = reading combiner others none := by
  rw [reading_eq_yields combiner hrecords, reading_eq_yields combiner hothers, seriesIn_congr hseries]
  congr 1
  refine List.map_congr_left fun series hmem => ?_
  obtain ⟨record, hrecord, rfl⟩ := mem_seriesIn.1 hmem
  rw [outcome_eq_records hdecodes, outcome_eq_records hdecodes', hgroups record hrecord]

/-- Over a store, a rollup reads the series of the records in the widened range. -/
theorem opens_seek_store {s : Rollup Store} {data : OrderedMap Key Bytes} (hsource : s.source.data = data)
    (range : Range) (projection : Projection) :
    let read := reading s.combiner (Store.within data range.widened projection) none
    Cursor.Opens (Cursor.seek range projection s) read.1 read.2 := by
  subst hsource
  exact opens_seek (s.source.opens_seek range.widened projection)
    (Store.length_within_le s.source.data range.widened projection)

end Rollup

end DatedCounts
