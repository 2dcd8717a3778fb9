import DatedCounts.Proofs.Cursor.Sums

/-!
# Totals of cells

A rollup that keeps labels apart reads one record for each series and label of the records below it.
Such a record is in aggregated form, has the newest timestamp of the records that it stands for, and
holds for each date the sum of the counts that they give to that date.
-/

namespace DatedCounts

/-! ### Counts given to dates -/

namespace Record

/-- The count that a record gives to a date, if it gives one. -/
def given (record : Record) (date : Text) : Option Count :=
  match record.1.parts with
  | .raw _ bytes =>
    match Text.ofBytes bytes, Count.decode record.2 with
    | .ok found, .ok count => if date = found then some count else none
    | _, _ => none
  | .aggregated _ =>
    match DateMap.decode record.2 with
    | .ok m => m.get? date
    | .error _ => none

theorem get?_held (record : Record) (date : Text) : record.held.get? date = record.given date := by
  simp only [held, given, counts]
  cases record.1.parts with
  | aggregated => cases DateMap.decode record.2 <;> rfl
  | raw _ bytes =>
    cases htext : Text.ofBytes bytes with
    | error => simp [htext]
    | ok found =>
      cases hcount : Count.decode record.2 with
      | error => simp [htext, Except.mapError, Except.map]
      | ok count => simp [htext, Except.mapError, Except.map, DateMap.get?_single]

instance (record : Record) : Decidable record.Decodes :=
  decidable_of_iff (record.counts.toOption.isSome) <| by
    rw [decodes_iff]
    cases record.counts <;> simp [Except.toOption]

end Record

/-! ### Cells -/

/-- The series and the visibility of a key, which the sums kept under it are for. -/
def Key.cell (key : Key) : Series × Bytes := (key.series, key.visibility)

def cellOf (cell : Series × Bytes) (records : List Record) : List Record :=
  records.filter fun record => record.1.cell = cell

/-- What it takes for a record to sum up some records. -/
structure TotalOf (members : List Record) (sums : Record) : Prop where
  aggregated : sums.1.parts = .aggregated sums.1.qualifier
  newest : ∃ record ∈ members, record.1.timestamp = sums.1.timestamp
  le_newest : ∀ record ∈ members, record.1.timestamp ≤ sums.1.timestamp
  value : ∃ m : DateMap, sums.2 = m.encode ∧ ∀ date, m.get? date =
    Count.total? (members.filterMap fun record => record.given date)

/-- Whether a record sums up all records of its cell among some records. -/
def SumsUp (records : List Record) (sums : Record) : Prop :=
  TotalOf (cellOf sums.1.cell records) sums

namespace Group

theorem filter_cellOf (series : Series) (label : Bytes) (records : List Record) :
    (records.filter fun record => record.1.series = series).filter (·.1.visibility = label) =
      cellOf (series, label) records := by
  rw [List.filter_filter, cellOf]
  refine List.filter_congr fun record _ => ?_
  simp [Key.cell, And.comm]

theorem get?_labels_ofSeries (series : Series) (records : List Record) (label : Bytes) :
    (ofSeries series records).labels.get? label =
      Tally.sum? ((cellOf (series, label) records).map Record.tally) := by
  rw [ofSeries, get?_addAll, filter_cellOf]
  exact Option.merge_none_left

theorem mem_recordsByLabel {group : Group} {sums : Record} : sums ∈ group.recordsByLabel ↔
    ∃ label tally, group.labels.get? label = some tally ∧
      sums = (group.series.key label tally.2, tally.1.encode) := by
  rw [recordsByLabel, List.mem_map]
  constructor
  · rintro ⟨entry, hentry, rfl⟩
    exact ⟨entry.1, entry.2, OrderedMap.get?_eq_some_iff.2 hentry, rfl⟩
  · rintro ⟨label, tally, htally, rfl⟩
    exact ⟨(label, tally), OrderedMap.get?_eq_some_iff.1 htally, rfl⟩

end Group

def Key.total (key : Key) (records : List Record) : Record :=
  let sum := Tally.sum ((cellOf key.cell records).map Record.tally)
  (key.series.key key.visibility sum.2, sum.1.encode)

theorem Key.total_cell (key : Key) (records : List Record) : (key.total records).1.cell = key.cell :=
  Prod.ext (key.series_key _ _) rfl

theorem Key.total_congr {a b : Key} (h : a.cell = b.cell) (records : List Record) :
    a.total records = b.total records := by
  obtain ⟨hseries, hvisibility⟩ := Prod.mk.inj h
  rw [Key.total, Key.total, h, hseries, hvisibility]

theorem totalOf_sum (key : Key) (visibility : Bytes) {members : List Record} (h : members ≠ []) :
    let sum := Tally.sum (members.map Record.tally)
    TotalOf members (key.series.key visibility sum.2, sum.1.encode) := by
  intro sum
  constructor
  · exact Qualifier.ofBytes_datatype key.qualifier
  · obtain ⟨tally, htally, hsum⟩ := Tally.exists_newest_sum
      (show members.map Record.tally ≠ [] by simpa using h)
    obtain ⟨record, hrecord, rfl⟩ := List.mem_map.1 htally
    exact ⟨record, hrecord, hsum⟩
  · exact fun record hrecord =>
      Tally.le_newest_sum (List.mem_map_of_mem (f := Record.tally) hrecord)
  · refine ⟨_, rfl, fun date => ?_⟩
    rw [Tally.get?_sum, List.filterMap_map]
    congr 2
    funext record
    exact record.get?_held date

/-- What sums up some records is fixed by its series and its label. -/
theorem TotalOf.unique {members : List Record} {a b : Record} (ha : TotalOf members a)
    (hb : TotalOf members b) (hseries : a.1.series = b.1.series)
    (hvisibility : a.1.visibility = b.1.visibility) : a = b := by
  obtain ⟨hrow, hfamily, hdatatype⟩ := Series.mk.inj hseries
  rw [ha.aggregated, hb.aggregated] at hdatatype
  have htimestamp : a.1.timestamp = b.1.timestamp := by
    obtain ⟨record, hrecord, hnewest⟩ := ha.newest
    obtain ⟨other, hother, hnewest'⟩ := hb.newest
    refine UInt64.le_antisymm ?_ ?_
    · exact hnewest ▸ hb.le_newest record hrecord
    · exact hnewest' ▸ ha.le_newest other hother
  obtain ⟨m, hm, hcounts⟩ := ha.value
  obtain ⟨n, hn, hcounts'⟩ := hb.value
  have hmaps : m = n := DateMap.ext_get? fun date => (hcounts date).trans (hcounts' date).symm
  refine Prod.ext (Key.ext hrow hfamily hdatatype hvisibility htimestamp) ?_
  rw [hm, hn, hmaps]

theorem sumsUp_total {records : List Record} {member : Record} (hmember : member ∈ records) :
    SumsUp records (member.1.total records) := by
  have hcell : member ∈ cellOf member.1.cell records := List.mem_filter.2 ⟨hmember, by simp⟩
  rw [SumsUp, Key.total_cell]
  exact totalOf_sum member.1 member.1.visibility (List.ne_nil_of_mem hcell)

theorem mem_recordsByLabel_ofSeries {series : Series} {records : List Record} {sums : Record} :
    sums ∈ (Group.ofSeries series records).recordsByLabel ↔
      ∃ member ∈ records, member.1.series = series ∧ sums = member.1.total records := by
  simp only [Group.mem_recordsByLabel, Group.series_ofSeries, Group.get?_labels_ofSeries,
    Tally.sum?_eq_some_iff, ne_eq, List.map_eq_nil_iff]
  constructor
  · rintro ⟨label, tally, ⟨hcell, rfl⟩, rfl⟩
    obtain ⟨member, hmem⟩ := List.exists_mem_of_ne_nil _ hcell
    obtain ⟨hmember, hmatch⟩ := List.mem_filter.1 hmem
    obtain ⟨rfl, rfl⟩ := Prod.mk.inj (of_decide_eq_true hmatch)
    exact ⟨member, hmember, rfl, rfl⟩
  · rintro ⟨member, hmember, rfl, rfl⟩
    have hcell : member ∈ cellOf member.1.cell records := List.mem_filter.2 ⟨hmember, by simp⟩
    exact ⟨member.1.visibility, _, ⟨List.ne_nil_of_mem hcell, rfl⟩, rfl⟩

namespace Rollup

/-- Of records in order that decode, a rollup that keeps labels apart reads the total of each cell. -/
theorem reading_totals {records : List Record} (hrecords : Ascending records)
    (hdecodes : ∀ record ∈ records, record.Decodes) :
    ∃ out, reading none records none = (out, none) ∧ Ascending out ∧
      ∀ sums, sums ∈ out ↔ ∃ member ∈ records, sums = member.1.total records := by
  obtain ⟨out, hreading, hout, hmem⟩ := reading_eq none hrecords hdecodes (fun _ _ => ⟨_, rfl⟩)
  refine ⟨out, hreading, hout, fun sums => ?_⟩
  rw [hmem]
  constructor
  · rintro ⟨first, _, part, hpart, hsums⟩
    cases hpart
    obtain ⟨member, hmember, _, htotal⟩ := mem_recordsByLabel_ofSeries.1 hsums
    exact ⟨member, hmember, htotal⟩
  · rintro ⟨member, hmember, htotal⟩
    exact ⟨member, hmember, _, rfl, mem_recordsByLabel_ofSeries.2 ⟨member, hmember, rfl, htotal⟩⟩

end Rollup

end DatedCounts
