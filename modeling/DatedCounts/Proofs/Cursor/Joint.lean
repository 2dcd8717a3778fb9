import DatedCounts.Proofs.Cursor.Totals
import DatedCounts.Proofs.Label.Conjunction

/-!
# Joint records

A rollup that combines labels by conjunction reads one record for each series of the records below it.
Its label adds what the labels of the series add, and its counts and timestamp are the joined tallies
of the series.
-/

namespace DatedCounts

namespace Label

def joint (labels : List Bytes) : Bytes :=
  match conjoin labels with
  | .ok label => label
  | .error _ => []

theorem conjoin_eq_joint {labels : List Bytes} (h : ∀ label ∈ labels, isValid label) :
    conjoin labels = .ok (joint labels) := by
  obtain ⟨combined, hconjoin, _⟩ := conjoin_eq_ok h
  rw [joint, hconjoin]

theorem isValid_joint {labels : List Bytes} (h : ∀ label ∈ labels, isValid label) :
    isValid (joint labels) := by
  obtain ⟨combined, hconjoin, hvalid, _⟩ := conjoin_eq_ok h
  rwa [joint, hconjoin]

theorem mem_adds_joint {labels : List Bytes} (h : ∀ label ∈ labels, isValid label)
    {operand : Bytes} : operand ∈ adds (joint labels) ↔ ∃ label ∈ labels, operand ∈ adds label := by
  obtain ⟨combined, hconjoin, _, hadds⟩ := conjoin_eq_ok h
  rw [joint, hconjoin]
  exact hadds operand

theorem joint_congr {labels others : List Bytes} (hlabels : ∀ label ∈ labels, isValid label)
    (hothers : ∀ label ∈ others, isValid label)
    (h : ∀ operand, (∃ label ∈ labels, operand ∈ adds label) ↔
      ∃ label ∈ others, operand ∈ adds label) : joint labels = joint others := by
  rw [joint, joint, conjoin_congr hlabels hothers h]

end Label

/-! ### Series with combined labels -/

def labelsOf (series : Series) (records : List Record) : List Bytes :=
  (seriesOf series records).map (·.1.visibility)

theorem mem_labelsOf {series : Series} {records : List Record} {label : Bytes} :
    label ∈ labelsOf series records ↔
      ∃ record ∈ records, record.1.series = series ∧ record.1.visibility = label := by
  rw [labelsOf, List.mem_map]
  simp only [mem_seriesOf, and_assoc]

theorem isValid_of_mem_labelsOf {records : List Record}
    (h : ∀ record ∈ records, Label.isValid record.1.visibility) (series : Series) :
    ∀ label ∈ labelsOf series records, Label.isValid label := by
  intro label hlabel
  obtain ⟨record, hrecord, _, rfl⟩ := mem_labelsOf.1 hlabel
  exact h record hrecord

namespace Group

theorem mem_keys_ofSeries {series : Series} {records : List Record} {label : Bytes} :
    label ∈ (ofSeries series records).labels.keys ↔ label ∈ labelsOf series records := by
  rw [OrderedMap.mem_keys_iff, get?_labels_ofSeries, Option.isSome_iff_exists, mem_labelsOf]
  simp only [Tally.sum?_eq_some_iff, ne_eq, List.map_eq_nil_iff, exists_and_left, exists_eq, and_true]
  simp [cellOf, Key.cell, List.filter_eq_nil_iff]

theorem union_ofSeries (series : Series) (records : List Record) :
    (ofSeries series records).union = Tally.sum ((seriesOf series records).map Record.tally) := by
  rw [ofSeries, union_addAll]
  exact Tally.zero_join _

end Group

/-- The record of the joined tallies of a series, under the combined label. -/
def Key.joint (key : Key) (records : List Record) : Record :=
  let sum := Tally.sum ((seriesOf key.series records).map Record.tally)
  (key.series.key (Label.joint (labelsOf key.series records)) sum.2, sum.1.encode)

theorem Key.series_joint (key : Key) (records : List Record) :
    (key.joint records).1.series = key.series :=
  key.series_key _ _

theorem Key.joint_congr {a b : Key} (h : a.series = b.series) (records : List Record) :
    a.joint records = b.joint records := by
  rw [joint, joint, h]

theorem Group.records_conjoin {key : Key} {records : List Record}
    (h : ∀ record ∈ records, Label.isValid record.1.visibility) :
    (ofSeries key.series records).records (some Label.conjoin) = .ok [key.joint records] := by
  have hvalid := isValid_of_mem_labelsOf h key.series
  have hconjoin : Label.conjoin (ofSeries key.series records).labels.keys =
      .ok (Label.joint (labelsOf key.series records)) := by
    have hkeys : ∀ label ∈ (ofSeries key.series records).labels.keys, Label.isValid label :=
      fun label hlabel => hvalid label (mem_keys_ofSeries.1 hlabel)
    rw [Label.conjoin_eq_joint hkeys]
    congr 1
    apply Label.joint_congr hkeys hvalid
    simp only [mem_keys_ofSeries, implies_true]
  refine records_some_eq_ok.2 ⟨_, hconjoin, ?_⟩
  rw [union_ofSeries]
  change _ = [((ofSeries key.series records).series.key _ _, _)]
  rw [series_ofSeries]
  rfl

/-- Of records in order that decode and have valid labels, a rollup that combines labels reads the joint
record of each series. -/
theorem Rollup.reading_joints {records : List Record} (hrecords : Ascending records)
    (hdecodes : ∀ record ∈ records, record.Decodes)
    (hvalid : ∀ record ∈ records, Label.isValid record.1.visibility) :
    ∃ out, reading (some Label.conjoin) records none = (out, none) ∧ Ascending out ∧
      ∀ sums, sums ∈ out ↔ ∃ member ∈ records, sums = member.1.joint records := by
  obtain ⟨out, hreading, hout, hmem⟩ := reading_eq (some Label.conjoin) hrecords hdecodes
    (fun record _ => ⟨_, Group.records_conjoin hvalid⟩)
  refine ⟨out, hreading, hout, fun sums => ?_⟩
  rw [hmem]
  constructor
  · rintro ⟨member, hmember, part, hpart, hsums⟩
    rw [Group.records_conjoin hvalid] at hpart
    cases hpart
    exact ⟨member, hmember, List.mem_singleton.1 hsums⟩
  · rintro ⟨member, hmember, rfl⟩
    exact ⟨member, hmember, _, Group.records_conjoin hvalid, List.mem_singleton.2 rfl⟩

end DatedCounts
