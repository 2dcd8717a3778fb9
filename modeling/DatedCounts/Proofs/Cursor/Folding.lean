import DatedCounts.Label.Conjunction
import DatedCounts.Proofs.Cursor.Footprint
import DatedCounts.Proofs.Cursor.Totals

/-!
# Combined labels as folds of labels kept apart

Over the same records, a rollup that combines labels reads for each series one record, which folds the
records that a rollup keeping labels apart reads for that series: their labels combined, their newest
timestamp and their merged counts. It fails where the combiner refuses the labels of a series.
-/

namespace DatedCounts

def written (sums : Key × DateMap) : Record := (sums.1, sums.2.encode)

def labelsIn (part : List (Key × DateMap)) : List Bytes := part.map (·.1.visibility)

/-- Whether sums are divided into series: the sums of a series have different labels, in order, and each
series comes before the next. -/
structure InSeries (parts : List (List (Key × DateMap))) : Prop where
  nonempty : ∀ part ∈ parts, part ≠ []
  series : ∀ part ∈ parts, ∀ a ∈ part, ∀ b ∈ part, a.1.series = b.1.series
  labels : ∀ part ∈ parts, (labelsIn part).Pairwise fun a b => compare a b = .lt
  ascending : parts.Pairwise fun xs ys => ∀ x ∈ xs, ∀ y ∈ ys, compare x.1.series y.1.series = .lt

/-- What it takes for a record to fold the sums of a series into one. -/
structure Folds (combine : Combiner) (part : List (Key × DateMap)) (folded : Record) : Prop where
  label : combine (labelsIn part) = .ok folded.1.visibility
  key : ∀ sums ∈ part, folded.1 = { sums.1 with
    visibility := folded.1.visibility, timestamp := folded.1.timestamp }
  newest : ∃ sums ∈ part, sums.1.timestamp = folded.1.timestamp
  le_newest : ∀ sums ∈ part, sums.1.timestamp ≤ folded.1.timestamp
  value : folded.2 = (DateMap.mergeAll (part.map (·.2))).encode

theorem Tally.fst_sum (tallies : List Tally) :
    (Tally.sum tallies).1 = DateMap.mergeAll (tallies.map (·.1)) := by
  suffices h : ∀ start : Tally, (tallies.foldl Tally.join start).1 =
      (tallies.map (·.1)).foldl DateMap.merge start.1 from h Tally.zero
  induction tallies with
  | nil => exact fun _ => rfl
  | cons tally tallies ih => exact fun start => ih (start.join tally)

namespace Group

def sums (group : Group) : List (Key × DateMap) :=
  group.labels.toList.map fun (label, counts, timestamp) => (group.series.key label timestamp, counts)

theorem map_written_sums (group : Group) : group.sums.map written = group.recordsByLabel := by
  rw [sums, List.map_map]
  rfl

theorem labelsIn_sums (group : Group) : labelsIn group.sums = group.labels.keys := by
  rw [labelsIn, sums, List.map_map]
  rfl

theorem mem_sums {group : Group} {entry : Key × DateMap} (h : entry ∈ group.sums) :
    ∃ label tally, group.labels.get? label = some tally ∧
      entry = (group.series.key label tally.2, tally.1) := by
  obtain ⟨⟨label, tally⟩, hmem, rfl⟩ := List.mem_map.1 h
  exact ⟨label, tally, OrderedMap.get?_eq_some_iff.2 hmem, rfl⟩

theorem union_eq_sum (group : Group) :
    group.union = Tally.sum (group.sums.map fun entry => (entry.2, entry.1.timestamp)) := by
  rw [sums, List.map_map]
  rfl

/-- The record of a group with a combined label folds the sums under its labels. -/
theorem folds_record {group : Group} (hlabels : group.labels.toList ≠ []) {combine : Combiner}
    {label : Bytes} (h : combine group.labels.keys = .ok label) :
    Folds combine group.sums (group.record label group.union.1 group.union.2) := by
  let tallyOf : Key × DateMap → Tally := fun entry => (entry.2, entry.1.timestamp)
  have hsums : group.sums.map tallyOf ≠ [] := by simpa [sums] using hlabels
  rw [union_eq_sum]
  constructor
  · rw [labelsIn_sums]
    exact h
  · intro entry hentry
    obtain ⟨_, _, _, rfl⟩ := mem_sums hentry
    rfl
  · obtain ⟨tally, htally, hnewest⟩ := Tally.exists_newest_sum hsums
    obtain ⟨entry, hentry, rfl⟩ := List.mem_map.1 htally
    exact ⟨entry, hentry, hnewest⟩
  · intro entry hentry
    exact Tally.le_newest_sum (List.mem_map_of_mem (f := tallyOf) hentry)
  · change DateMap.encode _ = _
    rw [Tally.fst_sum, List.map_map]
    rfl

/-! ### Groups of series -/

theorem labels_ofSeries_ne_nil {series : Series} {records : List Record}
    (h : series ∈ seriesIn records) : (ofSeries series records).labels.toList ≠ [] := by
  obtain ⟨record, hrecord, rfl⟩ := mem_seriesIn.1 h
  exact labels_addAll_ne_nil _ (List.ne_nil_of_mem (mem_seriesOf.2 ⟨hrecord, rfl⟩))

theorem series_of_mem_sums {series : Series} {records : List Record} (hseries : series ∈ seriesIn records)
    {entry : Key × DateMap} (h : entry ∈ (ofSeries series records).sums) :
    entry.1.series = series := by
  obtain ⟨label, tally, _, rfl⟩ := mem_sums h
  obtain ⟨record, _, rfl⟩ := mem_seriesIn.1 hseries
  rw [series_ofSeries, Key.series_key]

theorem inSeries_map {records : List Record} {some : List Series}
    (hsome : some.Pairwise fun a b => compare a b = .lt)
    (hmem : ∀ series ∈ some, series ∈ seriesIn records) :
    InSeries (some.map fun series => (ofSeries series records).sums) where
  nonempty := by
    refine List.forall_mem_map.2 fun series hseries => ?_
    simpa [sums] using labels_ofSeries_ne_nil (hmem series hseries)
  series := by
    refine List.forall_mem_map.2 fun series hseries a ha b hb => ?_
    rw [series_of_mem_sums (hmem series hseries) ha, series_of_mem_sums (hmem series hseries) hb]
  labels := by
    refine List.forall_mem_map.2 fun series _ => ?_
    rw [labelsIn_sums]
    exact List.pairwise_map.2 (ofSeries series records).labels.ascending
  ascending := by
    refine List.pairwise_map.2 (hsome.imp_of_mem fun {a b} ha hb hlt x hx y hy => ?_)
    rwa [series_of_mem_sums (hmem a ha) hx, series_of_mem_sums (hmem b hb) hy]

theorem decode_sums {series : Series} {records : List Record}
    (hfits : (records.map Record.footprint).sum < 2 ^ 64) {entry : Key × DateMap}
    (h : entry ∈ (ofSeries series records).sums) : DateMap.decode entry.2.encode = .ok entry.2 := by
  obtain ⟨label, tally, hlabel, rfl⟩ := mem_sums h
  rw [get?_labels_ofSeries, Tally.sum?_eq_some_iff] at hlabel
  rw [hlabel.2]
  exact DateMap.decode_encode (Record.fits_sum hfits _)

end Group

namespace Rollup

/-- Of series whose labels are combined, each is read as one record that folds its sums. -/
theorem folds_parts {records : List Record} {combine : Combiner} {some : List Series}
    (hmem : ∀ series ∈ some, series ∈ seriesIn records) (hok : ∀ series ∈ some,
      ∃ out, Group.outcome (.some combine) records series = .ok out) :
    List.Forall₂ (Folds combine) (some.map fun series => (Group.ofSeries series records).sums)
      (some.flatMap (part (.some combine) records)) := by
  induction some with
  | nil => exact .nil
  | cons series rest ih =>
    obtain ⟨hseries, hrest⟩ := List.forall_mem_cons.1 hmem
    obtain ⟨⟨out, hout⟩, hlater⟩ := List.forall_mem_cons.1 hok
    obtain ⟨label, hlabel, rfl⟩ := Group.records_some_eq_ok.1 (Group.outcome_eq_ok hout).2
    rw [List.flatMap_cons, part_of_ok hout]
    exact .cons (Group.folds_record (Group.labels_ofSeries_ne_nil hseries) hlabel) (ih hrest hlater)

section Decoding

variable {records : List Record} (hdecodes : ∀ record ∈ records, record.Decodes)
include hdecodes

theorem reading_apart (hrecords : Ascending records) : reading none records none =
    (((seriesIn records).map fun series => (Group.ofSeries series records).sums).flatten.map written,
      none) := by
  rw [reading_of_ok hrecords fun series _ => ⟨_, outcome_eq_records hdecodes none series⟩,
    List.map_flatten, List.map_map, List.flatMap_def]
  congr 2
  refine List.map_congr_left fun series _ => ?_
  rw [part_of_ok (outcome_eq_records hdecodes none series), Function.comp_apply,
    Group.map_written_sums]

theorem exists_outcome_iff (combine : Combiner) (series : Series) :
    (∃ out, Group.outcome (some combine) records series = .ok out) ↔
      ∃ label, combine (labelsIn (Group.ofSeries series records).sums) = .ok label := by
  simp only [outcome_eq_records hdecodes, Group.labelsIn_sums, Group.records_some_eq_ok]
  rw [exists_comm]
  simp

end Decoding

/-- Where labels kept apart are read as the sums of some series, combined labels are read as one record
for each series, which folds its sums, up to the first series whose labels the combiner refuses. -/
theorem reads_folded {data : OrderedMap Key Bytes} (range : Range) (projection : Projection)
    (hdecodes : ∀ record ∈ Store.within data range.widened projection, record.Decodes)
    (combine : Combiner) {apart combined : Rollup Store}
    (hapart : apart.source.data = data ∧ apart.combiner = none)
    (hcombined : combined.source.data = data ∧ combined.combiner = some combine) :
    ∃ top parts, Cursor.seek range projection apart = .done top ∧
      Cursor.Reads top (parts.flatten.map written) none ∧ InSeries parts ∧
      (((Store.within data range.widened projection).map Record.footprint).sum < 2 ^ 64 →
        ∀ sums ∈ parts.flatten, DateMap.decode sums.2.encode = .ok sums.2) ∧
      ((∀ part ∈ parts, ∃ label, combine (labelsIn part) = .ok label) →
        ∃ top out, Cursor.seek range projection combined = .done top ∧ Cursor.Reads top out none ∧
          Ascending out ∧ List.Forall₂ (Folds combine) parts out) ∧
      ((∃ part ∈ parts, ∃ e, combine (labelsIn part) = .error e) →
        ∃ before refused after e out, parts = before ++ refused :: after ∧
          (∀ part ∈ before, ∃ label, combine (labelsIn part) = .ok label) ∧
          combine (labelsIn refused) = .error e ∧
          Cursor.Opens (Cursor.seek range projection combined) out (some e) ∧
          Ascending out ∧ List.Forall₂ (Folds combine) before out) := by
  generalize hrecords : Store.within data range.widened projection = records at hdecodes ⊢
  have hascending : Ascending records := hrecords ▸ Store.within_ascending _ _ _
  have hseries := seriesIn_ascending records
  let sumsOf : Series → List (Key × DateMap) := fun series => (Group.ofSeries series records).sums
  have hok : ∀ series, (∃ out, Group.outcome (some combine) records series = .ok out) ↔
      ∃ label, combine (labelsIn (sumsOf series)) = .ok label := exists_outcome_iff hdecodes combine
  have hread := opens_seek_store hapart.1 range projection
  rw [hapart.2, hrecords, reading_apart hdecodes hascending] at hread
  obtain ⟨top, hseek, hreads⟩ := hread.exists_done
  have hfold := opens_seek_store hcombined.1 range projection
  rw [hcombined.2, hrecords] at hfold
  refine ⟨top, (seriesIn records).map sumsOf, hseek, hreads,
    Group.inSeries_map hseries fun _ => id, fun hfits sums hsums => ?_, fun hall => ?_, ?_⟩
  · obtain ⟨part, hpart, hmem⟩ := List.mem_flatten.1 hsums
    obtain ⟨series, _, rfl⟩ := List.mem_map.1 hpart
    exact Group.decode_sums hfits hmem
  · have hall' : ∀ series ∈ seriesIn records,
        ∃ out, Group.outcome (some combine) records series = .ok out :=
      fun series hmem => (hok series).2 (List.forall_mem_map.1 hall series hmem)
    rw [reading_of_ok hascending hall'] at hfold
    obtain ⟨top', hseek', hreads'⟩ := hfold.exists_done
    exact ⟨top', _, hseek', hreads', flatMap_part_ascending hseries fun _ => id,
      folds_parts (fun _ => id) hall'⟩
  · rintro ⟨part, hpart, e, he⟩
    rcases exists_first_error (some combine) records with hnone | ⟨before, bad, after, e, hsplit, hbefore, hbad⟩
    · obtain ⟨series, hmem, rfl⟩ := List.mem_map.1 hpart
      obtain ⟨label, hlabel⟩ := (hok series).1 (hnone series hmem)
      rw [he] at hlabel
      cases hlabel
    · rw [reading_of_error hascending hsplit hbefore hbad] at hfold
      have hmem : ∀ series ∈ before, series ∈ seriesIn records :=
        fun series hseries => ((mem_before_iff hsplit).1 hseries).1
      refine ⟨before.map sumsOf, sumsOf bad, after.map sumsOf, e, _, ?_, ?_, ?_, hfold,
        flatMap_part_ascending (before_ascending hsplit) hmem, folds_parts hmem hbefore⟩
      · rw [hsplit, List.map_append, List.map_cons]
      · exact List.forall_mem_map.2 fun series hseries => (hok series).1 (hbefore series hseries)
      · rw [outcome_eq_records hdecodes, Group.records_some_eq_error, ← Group.labelsIn_sums] at hbad
        exact hbad

/-- Counts of a series under two labels, and of another series under a label that is not valid. -/
def misnamed : OrderedMap Key Bytes := .ofList
  [(⟨[1], [2], [100, 0, 49], [97, 124, 98], 3⟩, [5]),
    (⟨[1], [2], [100, 0, 49], [99], 4⟩, [6]),
    (⟨[1], [2], [100], [99], 7⟩, [1, 1, 50, 8]),
    (⟨[1], [3], [100, 0, 49], [124], 2⟩, [9])]

theorem reads_folded_misnamed :
    let apart : Rollup Store := ofSource none (Store.ofData misnamed)
    let combined : Rollup Store := ofSource (some Label.conjoin) (Store.ofData misnamed)
    let records := Store.within misnamed Range.all.widened .everything
    (∀ record ∈ records, record.Decodes) ∧
    ∃ top parts, Cursor.seek .all .everything apart = .done top ∧
      Cursor.Reads top (parts.flatten.map written) none ∧ InSeries parts ∧
      ((records.map Record.footprint).sum < 2 ^ 64 →
        ∀ sums ∈ parts.flatten, DateMap.decode sums.2.encode = .ok sums.2) ∧
      ((∀ part ∈ parts, ∃ label, Label.conjoin (labelsIn part) = .ok label) →
        ∃ top out, Cursor.seek .all .everything combined = .done top ∧ Cursor.Reads top out none ∧
          Ascending out ∧ List.Forall₂ (Folds Label.conjoin) parts out) ∧
      ((∃ part ∈ parts, ∃ e, Label.conjoin (labelsIn part) = .error e) →
        ∃ before refused after e out, parts = before ++ refused :: after ∧
          (∀ part ∈ before, ∃ label, Label.conjoin (labelsIn part) = .ok label) ∧
          Label.conjoin (labelsIn refused) = .error e ∧
          Cursor.Opens (Cursor.seek .all .everything combined) out (some e) ∧
          Ascending out ∧ List.Forall₂ (Folds Label.conjoin) before out) := by
  intro apart combined records
  have hdecodes : ∀ record ∈ records, record.Decodes := by decide
  exact ⟨hdecodes, reads_folded .all .everything hdecodes Label.conjoin ⟨rfl, rfl⟩ ⟨rfl, rfl⟩⟩

end Rollup

end DatedCounts
