import DatedCounts.Proofs.Cursor.Footprint
import DatedCounts.Proofs.Cursor.Joint

/-!
# Rollups in stages

What a rollup reads of some records can be put in their place. A second rollup over it and the other
records of the data reads just what one rollup over all of the data does: the sums of sums are sums, the
newest of the newest timestamps is the newest, and a combined label adds what the labels that it was
made of add.
-/

namespace DatedCounts

/-- The labels of some records are kept apart, or they are combined by conjunction and all valid. -/
def Combinable (combiner : Option Combiner) (records : List Record) : Prop :=
  combiner = none ∨
    combiner = some Label.conjoin ∧ ∀ record ∈ records, Label.isValid record.1.visibility

theorem Combinable.mono {combiner : Option Combiner} {records others : List Record}
    (h : Combinable combiner records) (hothers : ∀ record ∈ others, record ∈ records) :
    Combinable combiner others := by
  rcases h with hnone | ⟨hconjoin, hvalid⟩
  · exact .inl hnone
  · exact .inr ⟨hconjoin, fun record hrecord => hvalid record (hothers record hrecord)⟩

theorem Combinable.exists_records {combiner : Option Combiner} {records : List Record}
    (h : Combinable combiner records) : ∀ record ∈ records, ∃ out,
      (Group.ofSeries record.1.series records).records combiner = .ok out := by
  intro record _
  rcases h with rfl | ⟨rfl, hvalid⟩
  · exact ⟨_, rfl⟩
  · exact ⟨_, Group.records_conjoin hvalid⟩

/-- Records that any groups take in to the same effect as others. -/
structure StandsFor (combiner : Option Combiner) (sums records : List Record) : Prop where
  decodes : ∀ record ∈ sums, record.Decodes
  series : ∀ series, (∃ record ∈ sums, record.1.series = series) ↔
    ∃ record ∈ records, record.1.series = series
  groups : ∀ {xs ys rest : List Record}, xs.Perm (rest ++ sums) → ys.Perm (rest ++ records) →
    Combinable combiner ys → ∀ key : Key, (Group.ofSeries key.series xs).records combiner =
      (Group.ofSeries key.series ys).records combiner

/-! ### Tallies of sums -/

section Summaries

variable {γ : Type} [DecidableEq γ] (kind : Key → γ) (summary : Key → Record)
  {records sums : List Record}

/-- One record for each kind, with the joined tally of the records of that kind, adds to each kind what
the records do. -/
theorem sum?_summaries (hsums : Ascending sums)
    (hmem : ∀ record, record ∈ sums ↔ ∃ member ∈ records, record = summary member.1)
    (hkind : ∀ key, kind (summary key).1 = kind key)
    (hcongr : ∀ {a b}, kind a = kind b → summary a = summary b)
    (htally : ∀ key, (summary key).tally =
      Tally.sum ((records.filter fun record => kind record.1 = kind key).map Record.tally)) (c : γ) :
    Tally.sum? ((sums.filter fun record => kind record.1 = c).map Record.tally) =
      Tally.sum? ((records.filter fun record => kind record.1 = c).map Record.tally) := by
  by_cases hmember : ∃ member ∈ records, kind member.1 = c
  · obtain ⟨member, hmember, rfl⟩ := hmember
    -- Members of one kind have one summary, and the sums are in strict order, so they hold it once.
    have hsingle : sums.filter (fun record => kind record.1 = kind member.1) =
        [summary member.1] := by
      apply List.perm_singleton.1
      refine (List.perm_ext_iff_of_nodup (hsums.nodup.filter _) (List.pairwise_singleton _ _)).2 ?_
      intro record
      rw [List.mem_filter, hmem, List.mem_singleton, decide_eq_true_eq]
      constructor
      · rintro ⟨⟨other, _, rfl⟩, hother⟩
        rw [hkind] at hother
        exact hcongr hother
      · rintro rfl
        exact ⟨⟨member, hmember, rfl⟩, hkind member.1⟩
    rw [hsingle, List.map_singleton, Tally.sum?_singleton, htally, eq_comm, Tally.sum?_eq_some_iff]
    refine ⟨?_, rfl⟩
    rw [ne_eq, List.map_eq_nil_iff, List.filter_eq_nil_iff]
    exact fun hnone => hnone member hmember (decide_eq_true rfl)
  · have hsums : sums.filter (fun record => kind record.1 = c) = [] := by
      rw [List.filter_eq_nil_iff]
      intro record hrecord hc
      obtain ⟨member, hmem, rfl⟩ := (hmem record).1 hrecord
      rw [decide_eq_true_eq, hkind] at hc
      exact hmember ⟨member, hmem, hc⟩
    have hrecords : records.filter (fun record => kind record.1 = c) = [] := by
      rw [List.filter_eq_nil_iff]
      intro record hrecord hc
      exact hmember ⟨record, hrecord, of_decide_eq_true hc⟩
    rw [hsums, hrecords]

theorem exists_series_summaries
    (hmem : ∀ record, record ∈ sums ↔ ∃ member ∈ records, record = summary member.1)
    (hseries : ∀ key, (summary key).1.series = key.series) (series : Series) :
    (∃ record ∈ sums, record.1.series = series) ↔ ∃ record ∈ records, record.1.series = series := by
  constructor
  · rintro ⟨record, hrecord, rfl⟩
    obtain ⟨member, hmember, rfl⟩ := (hmem record).1 hrecord
    exact ⟨member, hmember, (hseries member.1).symm⟩
  · rintro ⟨member, hmember, rfl⟩
    exact ⟨summary member.1, (hmem _).2 ⟨member, hmember, rfl⟩, hseries member.1⟩

end Summaries

/-- What a kind of records adds depends neither on their order nor on whether their sums stand for some
of them. -/
theorem sum?_of_perm {p : Record → Bool} {xs ys rest sums records : List Record}
    (hxs : xs.Perm (rest ++ sums)) (hys : ys.Perm (rest ++ records))
    (h : Tally.sum? ((sums.filter p).map Record.tally) =
      Tally.sum? ((records.filter p).map Record.tally)) :
    Tally.sum? ((xs.filter p).map Record.tally) = Tally.sum? ((ys.filter p).map Record.tally) := by
  rw [Tally.sum?_perm ((hxs.filter p).map _), Tally.sum?_perm ((hys.filter p).map _),
    List.filter_append, List.filter_append, List.map_append, List.map_append, Tally.sum?_append,
    Tally.sum?_append, h]

/-! ### Labels kept apart -/

namespace Group

theorem ofSeries_congr {xs ys : List Record}
    (h : ∀ cell, Tally.sum? ((cellOf cell xs).map Record.tally) =
      Tally.sum? ((cellOf cell ys).map Record.tally)) (series : Series) :
    ofSeries series xs = ofSeries series ys := by
  have hlabels : (ofSeries series xs).labels = (ofSeries series ys).labels := by
    apply OrderedMap.ext_get?
    intro label
    rw [get?_labels_ofSeries, get?_labels_ofSeries, h]
  have hseries : (ofSeries series xs).series = (ofSeries series ys).series := by
    rw [series_ofSeries, series_ofSeries]
  obtain ⟨hrow, hfamily, hdatatype⟩ := Series.mk.inj hseries
  rw [Group.mk.injEq]
  exact ⟨hrow, hfamily, hdatatype, hlabels⟩

end Group

theorem ofSeries_of_totals {records sums xs ys rest : List Record}
    (hfits : (records.map Record.footprint).sum < 2 ^ 64) (hsums : Ascending sums)
    (hmem : ∀ record, record ∈ sums ↔ ∃ member ∈ records, record = member.1.total records)
    (hxs : xs.Perm (rest ++ sums)) (hys : ys.Perm (rest ++ records)) (series : Series) :
    Group.ofSeries series xs = Group.ofSeries series ys := by
  refine Group.ofSeries_congr (fun cell => ?_) series
  apply sum?_of_perm hxs hys
  apply sum?_summaries Key.cell (fun key => key.total records) hsums hmem
  · exact fun key => key.total_cell records
  · exact fun heq => Key.total_congr heq records
  · exact fun key => Record.tally_sums key _ _ (Record.fits_sum hfits _)

theorem standsFor_totals {records sums : List Record}
    (hfits : (records.map Record.footprint).sum < 2 ^ 64) (hsums : Ascending sums)
    (hmem : ∀ record, record ∈ sums ↔ ∃ member ∈ records, record = member.1.total records) :
    StandsFor none sums records where
  decodes record hrecord := by
    obtain ⟨member, _, rfl⟩ := (hmem record).1 hrecord
    exact Record.decodes_sums _ _ _ (Record.fits_sum hfits _)
  series := exists_series_summaries (fun key => key.total records) hmem fun key =>
    key.series_key _ _
  groups hxs hys _ key := by rw [ofSeries_of_totals hfits hsums hmem hxs hys]

/-! ### Combined labels -/

theorem exists_label_of_perm {xs rest sums : List Record} (h : xs.Perm (rest ++ sums))
    (series : Series) (P : Bytes → Prop) : (∃ label ∈ labelsOf series xs, P label) ↔
      (∃ label ∈ labelsOf series rest, P label) ∨ ∃ label ∈ labelsOf series sums, P label := by
  have hperm : (labelsOf series xs).Perm (labelsOf series rest ++ labelsOf series sums) := by
    rw [labelsOf, labelsOf, labelsOf, ← List.map_append, seriesOf, seriesOf, seriesOf,
      ← List.filter_append]
    exact (h.filter _).map _
  simp only [hperm.mem_iff, List.mem_append, or_and_right, exists_or]

theorem exists_adds_joints {records sums : List Record}
    (hvalid : ∀ record ∈ records, Label.isValid record.1.visibility)
    (hmem : ∀ record, record ∈ sums ↔ ∃ member ∈ records, record = member.1.joint records)
    (series : Series) (operand : Bytes) :
    (∃ label ∈ labelsOf series sums, operand ∈ Label.adds label) ↔
      ∃ label ∈ labelsOf series records, operand ∈ Label.adds label := by
  have hadds : ∀ key : Key, operand ∈ Label.adds (key.joint records).1.visibility ↔
      ∃ label ∈ labelsOf key.series records, operand ∈ Label.adds label := fun key =>
    Label.mem_adds_joint (isValid_of_mem_labelsOf hvalid key.series)
  constructor
  · rintro ⟨label, hlabel, hoperand⟩
    obtain ⟨record, hrecord, rfl, rfl⟩ := mem_labelsOf.1 hlabel
    obtain ⟨member, _, rfl⟩ := (hmem record).1 hrecord
    rw [Key.series_joint]
    exact (hadds member.1).1 hoperand
  · rintro ⟨label, hlabel, hoperand⟩
    obtain ⟨member, hmember, rfl, _⟩ := mem_labelsOf.1 hlabel
    refine ⟨_, mem_labelsOf.2 ⟨_, (hmem _).2 ⟨member, hmember, rfl⟩, member.1.series_joint records,
      rfl⟩, ?_⟩
    exact (hadds member.1).2 ⟨label, hlabel, hoperand⟩

theorem standsFor_joints {records sums : List Record}
    (hfits : (records.map Record.footprint).sum < 2 ^ 64) (hsums : Ascending sums)
    (hvalid : ∀ record ∈ records, Label.isValid record.1.visibility)
    (hmem : ∀ record, record ∈ sums ↔ ∃ member ∈ records, record = member.1.joint records) :
    StandsFor (some Label.conjoin) sums records where
  decodes record hrecord := by
    obtain ⟨member, _, rfl⟩ := (hmem record).1 hrecord
    exact Record.decodes_sums _ _ _ (Record.fits_sum hfits _)
  series := exists_series_summaries (fun key => key.joint records) hmem fun key =>
    key.series_joint records
  groups {xs ys rest} hxs hys hcombinable key := by
    have hvalidYs : ∀ record ∈ ys, Label.isValid record.1.visibility := by
      rcases hcombinable with hnone | ⟨_, hvalidYs⟩
      · cases hnone
      · exact hvalidYs
    have hlabels := isValid_of_mem_labelsOf hvalid
    have hvalidXs : ∀ record ∈ xs, Label.isValid record.1.visibility := by
      intro record hrecord
      rcases List.mem_append.1 (hxs.mem_iff.1 hrecord) with hrest | hsum
      · exact hvalidYs record (hys.mem_iff.2 (List.mem_append_left _ hrest))
      · obtain ⟨member, _, rfl⟩ := (hmem record).1 hsum
        exact Label.isValid_joint (hlabels member.1.series)
    have hsum : Tally.sum ((seriesOf key.series xs).map Record.tally) =
        Tally.sum ((seriesOf key.series ys).map Record.tally) := by
      have hsum? := sum?_summaries Key.series (fun key => key.joint records) hsums hmem
        (fun key => key.series_joint records) (fun heq => Key.joint_congr heq records)
        (fun key => Record.tally_sums key _ _ (Record.fits_sum hfits _)) key.series
      rw [Tally.sum_eq_getD, Tally.sum_eq_getD]
      exact congrArg (Option.getD · Tally.zero) (sum?_of_perm hxs hys hsum?)
    -- The labels on both sides are different ones, but they add the same operands.
    have hlabel : Label.joint (labelsOf key.series xs) = Label.joint (labelsOf key.series ys) := by
      apply Label.joint_congr
      · exact isValid_of_mem_labelsOf hvalidXs key.series
      · exact isValid_of_mem_labelsOf hvalidYs key.series
      · intro operand
        rw [exists_label_of_perm hxs, exists_label_of_perm hys, exists_adds_joints hvalid hmem]
    rw [Group.records_conjoin hvalidXs, Group.records_conjoin hvalidYs, Key.joint, Key.joint, hsum,
      hlabel]

/-! ### Both stages -/

namespace Rollup

/-- What a rollup reads of some records stands for them. -/
theorem exists_standsFor {combiner : Option Combiner} {records : List Record}
    (hcombinable : Combinable combiner records) (hrecords : Ascending records)
    (hdecodes : ∀ record ∈ records, record.Decodes)
    (hfits : (records.map Record.footprint).sum < 2 ^ 64) :
    ∃ sums, reading combiner records none = (sums, none) ∧ Ascending sums ∧
      StandsFor combiner sums records := by
  rcases hcombinable with rfl | ⟨rfl, hvalid⟩
  · obtain ⟨sums, hreading, hsums, hmem⟩ := reading_totals hrecords hdecodes
    exact ⟨sums, hreading, hsums, standsFor_totals hfits hsums hmem⟩
  · obtain ⟨sums, hreading, hsums, hmem⟩ := reading_joints hrecords hdecodes hvalid
    exact ⟨sums, hreading, hsums, standsFor_joints hfits hsums hvalid hmem⟩

/-- All that a new rollup over some data reads, or the error that ends it. -/
def scan (combiner : Option Combiner) (data : OrderedMap Key Bytes) : Except Error (List Record) :=
  (Cursor.collect .all (ofSource combiner (Store.ofData data))).2

theorem scan_eq (combiner : Option Combiner) (data : OrderedMap Key Bytes) :
    scan combiner data = Cursor.result (reading combiner data.toList none).1
      (reading combiner data.toList none).2 := by
  let s : Rollup Store := ofSource combiner (.ofData data)
  have hopens : Cursor.Opens (Cursor.seek Range.all.widened .everything s.source)
      data.toList none := by
    have hstore := s.source.opens_seek Range.all.widened .everything
    rwa [show Range.all.widened = Range.all from rfl, Store.within_all] at hstore
  have hsize : data.toList.length ≤ Cursor.size s.source := Nat.le_refl _
  have hlength := length_reading_le combiner data.toList none
  exact Cursor.collect_eq (opens_seek hopens hsize) (Nat.le_trans hlength hsize)

/-- A rollup over the sums of some records of the data and the other records of the data reads what a
rollup over the data does, unless the key of one of the sums is that of another record. The data is held
in memory, so there are fewer than `2 ^ 64` bytes of it. -/
theorem scan_staged {combiner : Option Combiner} {data part : OrderedMap Key Bytes}
    (hcombinable : Combinable combiner data.toList)
    (hdecodes : ∀ record ∈ data.toList, Record.Decodes record)
    (hfits : (data.toList.map Record.footprint).sum < 2 ^ 64)
    (hpart : ∀ record ∈ part.toList, record ∈ data.toList) :
    ∃ sums out, scan combiner part = .ok sums ∧ scan combiner data = .ok out ∧
      ((∀ record ∈ sums, record.1 ∉ (data.diff part).keys) →
        scan combiner (.ofList ((data.diff part).toList ++ sums)) = .ok out) := by
  have hdata : data.toList.Perm ((data.diff part).toList ++ part.toList) :=
    OrderedMap.toList_perm_diff hpart
  have hfitsPart : (part.toList.map Record.footprint).sum < 2 ^ 64 := by
    rw [OrderedMap.toList_eq_filter hpart]
    exact Nat.lt_of_le_of_lt (Record.footprint_filter_le _ _) hfits
  obtain ⟨sums, hreading, hsums, hstands⟩ := exists_standsFor (hcombinable.mono hpart) part.ascending
    (fun record hrecord => hdecodes record (hpart record hrecord)) hfitsPart
  have hcombine := hcombinable.exists_records
  obtain ⟨out, hout, -⟩ := reading_eq combiner data.ascending hdecodes hcombine
  refine ⟨sums, out, by rw [scan_eq, hreading]; rfl, by rw [scan_eq, hout]; rfl, fun hnew => ?_⟩
  have hstaged : (OrderedMap.ofList ((data.diff part).toList ++ sums)).toList.Perm
      ((data.diff part).toList ++ sums) := by
    apply OrderedMap.toList_ofList_perm
    rw [List.map_append, List.nodup_append]
    refine ⟨Ascending.nodup_keys (data.diff part).ascending, hsums.nodup_keys, ?_⟩
    rintro key hkey _ hsum rfl
    obtain ⟨record, hrecord, rfl⟩ := List.mem_map.1 hsum
    exact hnew record hrecord hkey
  generalize OrderedMap.ofList ((data.diff part).toList ++ sums) = staged at hstaged ⊢
  have hsame : reading combiner staged.toList none = reading combiner data.toList none := by
    apply reading_congr combiner staged.ascending data.ascending _ hdecodes
    · intro series
      simp only [hstaged.mem_iff, hdata.mem_iff, List.mem_append, or_and_right, exists_or,
        hstands.series series]
    · intro record _
      exact hstands.groups hstaged hdata hcombinable record.1
    · intro record hrecord
      rcases List.mem_append.1 (hstaged.mem_iff.1 hrecord) with hrest | hsum
      · exact hdecodes record (OrderedMap.mem_of_mem_diff hrest)
      · exact hstands.decodes record hsum
  rw [scan_eq, hsame, hout]
  rfl

/-- Two counts of one date under different labels, a later one, and sums of another family. -/
def labelled : OrderedMap Key Bytes := .ofList
  [(⟨[1], [2], [100, 0, 49], [98], 3⟩, [5]),
    (⟨[1], [2], [100, 0, 49], [97, 124, 99], 4⟩, [6]),
    (⟨[1], [2], [100, 0, 50], [98], 9⟩, [7]),
    (⟨[1], [3], [100], [], 2⟩, [1, 1, 49, 8])]

def older : OrderedMap Key Bytes := labelled.filterKeys fun key => key.timestamp < 5

def olderSums : List Record :=
  [(⟨[1], [2], [100], [40, 97, 124, 99, 41, 38, 98], 4⟩, [1, 1, 49, 11]),
    (⟨[1], [3], [100], [], 2⟩, [1, 1, 49, 8])]

theorem scan_staged_labelled : Combinable (some Label.conjoin) labelled.toList ∧
    (∀ record ∈ labelled.toList, Record.Decodes record) ∧
    (labelled.toList.map Record.footprint).sum < 2 ^ 64 ∧
    (∀ record ∈ older.toList, record ∈ labelled.toList) ∧
    scan (some Label.conjoin) older = .ok olderSums ∧
    (∀ record ∈ olderSums, record.1 ∉ (labelled.diff older).keys) ∧
    ∃ out, scan (some Label.conjoin) labelled = .ok out ∧
      scan (some Label.conjoin) (.ofList ((labelled.diff older).toList ++ olderSums)) = .ok out := by
  have hvalid : ∀ record : Record, record ∈ labelled.toList → Label.isValid record.1.visibility := by
    rw [← List.all_eq_true]
    cbv
  have hcombinable : Combinable (some Label.conjoin) labelled.toList := .inr ⟨rfl, hvalid⟩
  have hdecodes : ∀ record ∈ labelled.toList, Record.Decodes record := by decide
  have hfits : (labelled.toList.map Record.footprint).sum < 2 ^ 64 := by decide
  have holder : ∀ record ∈ older.toList, record ∈ labelled.toList := by decide
  have hscan : scan (some Label.conjoin) older = .ok olderSums := by cbv
  have hnew : ∀ record ∈ olderSums, record.1 ∉ (labelled.diff older).keys := by decide
  obtain ⟨sums, out, hsums, hout, hstaged⟩ := scan_staged hcombinable hdecodes hfits holder
  rw [hscan] at hsums
  cases hsums
  exact ⟨hcombinable, hdecodes, hfits, holder, hscan, hnew, out, hout, hstaged hnew⟩

end Rollup

end DatedCounts
