import DatedCounts.Proofs.Cursor.Footprint
import DatedCounts.Proofs.Cursor.Sieve
import DatedCounts.Proofs.Cursor.Totals

/-!
# Windows before and after sums

Of raw records it makes no difference whether a sieve takes out the records of the window before they are
summed up, or the dates of the window are cut out of the sums. A sum that is left with no date is not
read at all.
-/

namespace DatedCounts

/-! ### Windows on maps -/

namespace Filter.Config

/-- The counts of the dates that settings accept. -/
def cut (config : Config) (m : DateMap) : DateMap :=
  match config.first, config.last with
  | some first, some last => m.between (.ofString first) (.ofString last)
  | _, _ => ∅

def inWindow (config : Config) (date : Text) : Bool :=
  match config.first, config.last with
  | some first, some last =>
    (compare (.ofString first) date).isLE && (compare date (.ofString last)).isLE
  | _, _ => false

theorem get?_cut (config : Config) (m : DateMap) (date : Text) :
    (config.cut m).get? date = if config.inWindow date then m.get? date else none := by
  rw [cut, inWindow]
  split
  · exact OrderedMap.get?_filterKeys _ _ _
  · rfl

/-- The datatype and the date of a raw key decide, each on its own, whether the key is accepted. -/
theorem accepts_raw {config : Config} {filter : Filter} (hfilter : ofConfig config = .ok filter)
    {key : Key} {datatype date : Bytes} (hparts : key.parts = .raw datatype date) {text : Text}
    (htext : Text.ofBytes date = .ok text) :
    filter.accepts key = (filter.acceptsDatatype datatype && config.inWindow text) := by
  obtain ⟨_, _, _, hdatatypes⟩ := ofConfig_eq_ok hfilter
  rw [accepts_eq hfilter, accepts, inWindow, hparts, ← Text.bytes_of_ofBytes htext, hdatatypes]
  cases config.first with
  | none => simp
  | some first =>
    cases config.last with
    | none => simp
    | some last => exact Bool.and_assoc _ _ _

end Filter.Config

/-! ### Sums of accepted records -/

theorem cellOf_filter (cell : Series × Bytes) (records : List Record) (p : Record → Bool) :
    cellOf cell (records.filter p) = (cellOf cell records).filter p := by
  rw [cellOf, cellOf, List.filter_filter, List.filter_filter]
  simp only [Bool.and_comm]

theorem newest_filter_le {records : List Record} {p : Record → Bool} {cell : Series × Bytes}
    {member : Record} (hmember : member ∈ cellOf cell (records.filter p)) :
    (Tally.sum ((cellOf cell (records.filter p)).map Record.tally)).2 ≤
      (Tally.sum ((cellOf cell records).map Record.tally)).2 := by
  obtain ⟨tally, htally, hnewest⟩ := Tally.exists_newest_sum
    (List.ne_nil_of_mem (List.mem_map_of_mem (f := Record.tally) hmember))
  rw [← hnewest]
  apply Tally.le_newest_sum
  rw [cellOf_filter] at htally
  exact List.map_subset _ List.filter_sublist.subset htally

section Sums

variable {config : Filter.Config} {filter : Filter} (hfilter : Filter.ofConfig config = .ok filter)

/-- Whether a record is raw and of the form that its qualifier calls for. -/
def Record.IsDated (record : Record) : Prop := record.1.parts.isRaw ∧ record.Decodes

instance (record : Record) : Decidable record.IsDated :=
  inferInstanceAs (Decidable (_ ∧ _))

theorem Record.IsDated.given_eq {record : Record} (h : record.IsDated) :
    ∃ datatype date text count, record.1.parts = .raw datatype date ∧ Text.ofBytes date = .ok text ∧
      ∀ other, record.given other = if other = text then some count else none := by
  obtain ⟨hraw, hdecodes⟩ := h
  rw [Decodes] at hdecodes
  cases hparts : record.1.parts with
  | aggregated =>
    rw [hparts] at hraw
    cases hraw
  | raw datatype date =>
    rw [hparts] at hdecodes
    obtain ⟨⟨text, htext⟩, count, hcount⟩ := hdecodes
    refine ⟨datatype, date, text, count, rfl, htext, fun other => ?_⟩
    simp only [given, hparts, htext, hcount]

include hfilter

/-- Of the records of an accepted datatype, the accepted ones are those that give to a date of the
window. -/
theorem given_of_accepts {record : Record} (h : record.IsDated)
    (hdatatype : filter.acceptsDatatype record.1.parts.datatype) (date : Text) :
    (if filter.accepts record.1 then record.given date else none) =
      if config.inWindow date then record.given date else none := by
  obtain ⟨datatype, _, text, count, hparts, htext, hgiven⟩ := h.given_eq
  rw [hparts] at hdatatype
  rw [Filter.Config.accepts_raw hfilter hparts htext, show filter.acceptsDatatype datatype from
    hdatatype, hgiven, Bool.true_and]
  by_cases hdate : date = text
  · rw [hdate]
  · simp [hdate]

/-- The sums of the accepted records of a cell are the sums of all of them, with the window cut out. -/
theorem sum_accepted {records : List Record} (hdated : ∀ record ∈ records, record.IsDated)
    {cell : Series × Bytes} (hdatatype : filter.acceptsDatatype cell.1.datatype) :
    (Tally.sum ((cellOf cell (records.filter fun r => filter.accepts r.1)).map Record.tally)).1 =
      config.cut (Tally.sum ((cellOf cell records).map Record.tally)).1 := by
  apply DateMap.ext_get?
  intro date
  -- Date by date, both are sums of the same counts: none outside the window, all of the cell in it.
  rw [config.get?_cut, Tally.get?_sum, Tally.get?_sum, List.filterMap_map, List.filterMap_map,
    cellOf_filter, List.filterMap_filter]
  have hgiven : ((cellOf cell records).filterMap fun record =>
      if filter.accepts record.1 then ((·.1.get? date) ∘ Record.tally) record else none) =
      (cellOf cell records).filterMap fun record =>
        if config.inWindow date then ((·.1.get? date) ∘ Record.tally) record else none := by
    refine List.filterMap_congr fun record hrecord => ?_
    obtain ⟨hmem, hcell⟩ := List.mem_filter.1 hrecord
    obtain rfl := of_decide_eq_true hcell
    have heq := given_of_accepts hfilter (hdated record hmem) hdatatype date
    rw [← record.get?_held] at heq
    exact heq
  rw [hgiven]
  split
  · rfl
  · rw [List.filterMap_none]
    rfl

omit hfilter in
theorem sum_ne_empty {records : List Record} (hdated : ∀ record ∈ records, record.IsDated)
    {cell : Series × Bytes} {member : Record} (hmember : member ∈ cellOf cell records) :
    (Tally.sum ((cellOf cell records).map Record.tally)).1 ≠ ∅ := by
  obtain ⟨_, _, text, count, _, _, hgiven⟩ := (hdated member (List.mem_filter.1 hmember).1).given_eq
  have hheld : member.held.get? text = some count := by
    rw [member.get?_held, hgiven, if_pos rfl]
  have hcounts : count ∈ ((cellOf cell records).map Record.tally).filterMap (·.1.get? text) :=
    List.mem_filterMap.2 ⟨member.tally, List.mem_map_of_mem hmember, hheld⟩
  intro hempty
  have hnone := Tally.get?_sum ((cellOf cell records).map Record.tally) text
  rw [hempty, DateMap.get?_empty] at hnone
  have hsome := Count.isSome_total?.2 (List.ne_nil_of_mem hcounts)
  rw [← hnone] at hsome
  cases hsome

theorem exists_accepted_iff {records : List Record} (hdated : ∀ record ∈ records, record.IsDated)
    (cell : Series × Bytes) :
    (∃ member ∈ records.filter (fun r => filter.accepts r.1), member.1.cell = cell) ↔
      filter.acceptsDatatype cell.1.datatype ∧ (∃ member ∈ records, member.1.cell = cell) ∧
        config.cut (Tally.sum ((cellOf cell records).map Record.tally)).1 ≠ ∅ := by
  constructor
  · rintro ⟨member, hmember, rfl⟩
    obtain ⟨hmem, haccepts⟩ := List.mem_filter.1 hmember
    have haccepted : filter.acceptsDatatype member.1.cell.1.datatype :=
      Filter.acceptsDatatype_of_accepts haccepts
    refine ⟨haccepted, ⟨member, hmem, rfl⟩, ?_⟩
    rw [← sum_accepted hfilter hdated haccepted]
    exact sum_ne_empty (fun r hr => hdated r (List.mem_filter.1 hr).1)
      (List.mem_filter.2 ⟨hmember, decide_eq_true rfl⟩)
  · rintro ⟨haccepted, _, hcut⟩
    rw [← sum_accepted hfilter hdated haccepted] at hcut
    have hcell : cellOf cell (records.filter fun r => filter.accepts r.1) ≠ [] := by
      intro hnil
      rw [hnil] at hcut
      exact hcut rfl
    obtain ⟨member, hmember⟩ := List.exists_mem_of_ne_nil _ hcell
    obtain ⟨hmem, heq⟩ := List.mem_filter.1 hmember
    exact ⟨member, hmem, of_decide_eq_true heq⟩

/-- The total of the accepted records of a cell is that of all of them, with the window cut out. -/
theorem total_accepted {records : List Record} (hdated : ∀ record ∈ records, record.IsDated)
    {member : Record} (hmember : member ∈ records.filter fun r => filter.accepts r.1) :
    let part := member.1.total (records.filter fun r => filter.accepts r.1)
    let whole := member.1.total records
    part.1 = { whole.1 with timestamp := part.1.timestamp } ∧
      part.1.timestamp ≤ whole.1.timestamp ∧ part.2 =
        (config.cut (Tally.sum ((cellOf member.1.cell records).map Record.tally)).1).encode := by
  have hdatatype := Filter.acceptsDatatype_of_accepts (List.mem_filter.1 hmember).2
  refine ⟨rfl, newest_filter_le (List.mem_filter.2 ⟨hmember, decide_eq_true rfl⟩), ?_⟩
  rw [← sum_accepted hfilter hdated hdatatype]
  rfl

end Sums

/-! ### Both ways round -/

theorem nodup_cells {records out : List Record} (hout : Ascending out)
    (htotal : ∀ sums ∈ out, ∃ member ∈ records, sums = member.1.total records) :
    (out.map (·.1.cell)).Nodup := by
  refine List.Nodup.map_on (fun a ha b hb hcell => ?_) hout.nodup
  obtain ⟨member, _, rfl⟩ := htotal a ha
  obtain ⟨other, _, rfl⟩ := htotal b hb
  rw [Key.total_cell, Key.total_cell] at hcell
  exact Key.total_congr hcell records

def summed (records : List Record) (sums : Record) : Key × DateMap :=
  (sums.1, (Tally.sum ((cellOf sums.1.cell records).map Record.tally)).1)

theorem summed_total (key : Key) (records : List Record) : summed records (key.total records) =
    ((key.total records).1, (Tally.sum ((cellOf key.cell records).map Record.tally)).1) := by
  rw [summed, key.total_cell]

theorem map_encode_summed {records totals : List Record}
    (htotal : ∀ sums ∈ totals, ∃ member ∈ records, sums = member.1.total records) :
    (totals.map (summed records)).map (fun entry => (entry.1, entry.2.encode)) = totals := by
  rw [List.map_map]
  refine (List.map_congr_left fun sums hsums => ?_).trans (List.map_id _)
  obtain ⟨member, _, rfl⟩ := htotal sums hsums
  rw [Function.comp_apply, summed_total]
  rfl

/-- What it takes for records of sums to be other sums with the window cut out, as far as that leaves them
any date. -/
structure IsCut (config : Filter.Config) (filter : Filter) (out : List Record)
    (sums : List (Key × DateMap)) : Prop where
  nodup : (out.map (·.1.cell)).Nodup
  nodup_sums : (sums.map (·.1.cell)).Nodup
  exists_iff : ∀ cell, (∃ record ∈ out, record.1.cell = cell) ↔
    filter.acceptsDatatype cell.1.datatype ∧
      ∃ entry ∈ sums, entry.1.cell = cell ∧ config.cut entry.2 ≠ ∅
  agree : ∀ record ∈ out, ∀ entry ∈ sums, record.1.cell = entry.1.cell →
    record.1 = { entry.1 with timestamp := record.1.timestamp } ∧
      record.1.timestamp ≤ entry.1.timestamp ∧ record.2 = (config.cut entry.2).encode

theorem isCut_totals {config : Filter.Config} {filter : Filter}
    (hfilter : Filter.ofConfig config = .ok filter) {records out totals : List Record}
    (hdated : ∀ record ∈ records, record.IsDated) (hout : Ascending out) (htotals : Ascending totals)
    (hpart : ∀ sums, sums ∈ out ↔ ∃ member ∈ records.filter (fun r => filter.accepts r.1),
      sums = member.1.total (records.filter fun r => filter.accepts r.1))
    (hwhole : ∀ sums, sums ∈ totals ↔ ∃ member ∈ records, sums = member.1.total records) :
    IsCut config filter out (totals.map (summed records)) where
  nodup := nodup_cells hout fun sums hsums => (hpart sums).1 hsums
  nodup_sums := by
    rw [List.map_map]
    exact nodup_cells htotals fun sums hsums => (hwhole sums).1 hsums
  exists_iff cell := by
    have hleft : (∃ record ∈ out, record.1.cell = cell) ↔
        ∃ member ∈ records.filter (fun r => filter.accepts r.1), member.1.cell = cell := by
      constructor
      · rintro ⟨record, hrecord, rfl⟩
        obtain ⟨member, hmember, rfl⟩ := (hpart record).1 hrecord
        exact ⟨member, hmember, (Key.total_cell _ _).symm⟩
      · rintro ⟨member, hmember, rfl⟩
        exact ⟨_, (hpart _).2 ⟨member, hmember, rfl⟩, Key.total_cell _ _⟩
    have hright : (∃ entry ∈ totals.map (summed records),
        entry.1.cell = cell ∧ config.cut entry.2 ≠ ∅) ↔ (∃ member ∈ records, member.1.cell = cell) ∧
          config.cut (Tally.sum ((cellOf cell records).map Record.tally)).1 ≠ ∅ := by
      constructor
      · rintro ⟨entry, hentry, rfl, hcut⟩
        obtain ⟨sums, hsums, rfl⟩ := List.mem_map.1 hentry
        obtain ⟨member, hmember, rfl⟩ := (hwhole sums).1 hsums
        exact ⟨⟨member, hmember, (Key.total_cell _ _).symm⟩, hcut⟩
      · rintro ⟨⟨member, hmember, rfl⟩, hcut⟩
        refine ⟨_, List.mem_map_of_mem ((hwhole _).2 ⟨member, hmember, rfl⟩), ?_⟩
        rw [summed_total]
        exact ⟨Key.total_cell _ _, hcut⟩
    rw [hleft, hright]
    exact exists_accepted_iff hfilter hdated cell
  agree record hrecord entry hentry hsame := by
    obtain ⟨member, hmember, rfl⟩ := (hpart record).1 hrecord
    obtain ⟨sums, hsums, rfl⟩ := List.mem_map.1 hentry
    obtain ⟨other, hother, rfl⟩ := (hwhole sums).1 hsums
    rw [summed_total, Key.total_cell, Key.total_cell] at hsame
    rw [← Key.total_congr hsame, summed_total]
    exact total_accepted hfilter hdated hmember

namespace Rollup

theorem reads_totals {σ : Type} [Cursor σ] [Cursor.Sized σ] {s : Rollup σ} (hlabels : s.combiner = none)
    {range : Range} {projection : Projection} {records : List Record}
    (hopens : Cursor.Opens (Cursor.seek range.widened projection s.source) records none)
    (hsize : records.length ≤ Cursor.size s.source) (hrecords : Ascending records)
    (hdecodes : ∀ record ∈ records, record.Decodes) :
    ∃ top out, Cursor.seek range projection s = .done top ∧ Cursor.Reads top out none ∧
      Ascending out ∧ ∀ sums, sums ∈ out ↔ ∃ member ∈ records, sums = member.1.total records := by
  obtain ⟨out, hreading, hout, htotal⟩ := reading_totals hrecords hdecodes
  have hread := opens_seek hopens hsize
  rw [hlabels, hreading] at hread
  obtain ⟨top, hseek, hreads⟩ := hread.exists_done
  exact ⟨top, out, hseek, hreads, hout, htotal⟩

/-- Over dated raw records, the sums of what a sieve accepts are the sums of all records of the accepted
datatypes with the window cut out, as far as that leaves them any date. -/
theorem reads_cut {config : Filter.Config} {filter : Filter}
    (hfilter : Filter.ofConfig config = .ok filter) {data : OrderedMap Key Bytes} (range : Range)
    (projection : Projection)
    (hdated : ∀ record ∈ Store.within data range.widened projection, record.IsDated)
    (s : Rollup (Sieve Store)) (s' : Rollup Store) (hlabels : s.combiner = none)
    (hlabels' : s'.combiner = none) (hsource : s.source.source.data = data ∧
      s.source.filter = filter ∧ s.source.maxNext = config.maxNext) (hsource' : s'.source.data = data) :
    ∃ top out top', ∃ sums : List (Key × DateMap),
      Cursor.seek range projection s = .done top ∧ Cursor.Reads top out none ∧
      Cursor.seek range projection s' = .done top' ∧
      Cursor.Reads top' (sums.map fun entry => (entry.1, entry.2.encode)) none ∧
      (((Store.within data range.widened projection).map Record.footprint).sum < 2 ^ 64 →
        ∀ entry ∈ sums, DateMap.decode entry.2.encode = .ok entry.2) ∧
      IsCut config filter out sums := by
  subst hsource'
  generalize hrecords : Store.within s'.source.data range.widened projection = records at hdated ⊢
  have hascending : Ascending records := hrecords ▸ Store.within_ascending _ _ _
  have hlength : records.length ≤ s'.source.data.size := hrecords ▸ Store.length_within_le _ _ _
  -- Below one rollup are all the records, below the other the accepted ones.
  obtain ⟨top', totals, hseek', hreads', htotals, hwhole⟩ := reads_totals hlabels'
    (hrecords ▸ s'.source.opens_seek range.widened projection) hlength hascending
    fun record hrecord => (hdated record hrecord).2
  have hopens : Cursor.Opens (Cursor.seek range.widened projection s.source)
      (records.filter fun r => filter.accepts r.1) none := by
    have hserves := Sieve.serves (Store.serves s'.source.data)
      (Filter.separator_notMem_of_mem hfilter) config.maxNext
    have hread := hserves.opens hsource fun r hr => (hdated r (hrecords ▸ hr)).1
    simp only [Cursor.content, Bool.and_true, hrecords] at hread
    exact hread
  have hsize : (records.filter fun r => filter.accepts r.1).length ≤ Cursor.size s.source := by
    change _ ≤ s.source.source.data.size
    rw [hsource.1]
    exact Nat.le_trans (List.length_filter_le _ _) hlength
  obtain ⟨top, out, hseek, hreads, hout, hpart⟩ := reads_totals hlabels hopens hsize
    (hascending.filter _) fun record hrecord => (hdated record (List.mem_filter.1 hrecord).1).2
  rw [← map_encode_summed fun sums hsums => (hwhole sums).1 hsums] at hreads'
  refine ⟨top, out, top', totals.map (summed records), hseek, hreads, hseek', hreads', ?_,
    isCut_totals hfilter hdated hout htotals hpart hwhole⟩
  intro hfits entry hentry
  obtain ⟨sums, _, rfl⟩ := List.mem_map.1 hentry
  exact DateMap.decode_encode (Record.fits_sum hfits _)

/-- Days of two datatypes in and out of a window, of different widths, and a day of another datatype. -/
def assorted : OrderedMap Key Bytes := .ofList
  [(⟨[1], [2], 97 :: 0 :: Utf8.encode "20190101".toList, [], 9⟩, [1]),
    (⟨[1], [2], 97 :: 0 :: Utf8.encode "202006".toList, [], 3⟩, [2]),
    (⟨[1], [2], 97 :: 0 :: Utf8.encode "20200615".toList, [], 4⟩, [3]),
    (⟨[1], [2], 98 :: 0 :: Utf8.encode "2019".toList, [], 5⟩, [4]),
    (⟨[1], [2], 99 :: 0 :: Utf8.encode "20200615".toList, [], 6⟩, [5])]

def firstTwo : Filter.Config := ⟨.ofList [[97], [98]], some "20200101", some "20201231", 1⟩

theorem reads_cut_assorted : ∃ filter, Filter.ofConfig firstTwo = .ok filter ∧
    (∀ record ∈ Store.within assorted Range.all.widened .everything, record.IsDated) ∧
    ∃ top out top', ∃ sums : List (Key × DateMap),
      Cursor.seek .all .everything
        (ofSource none (Sieve.ofSource filter 1 (Store.ofData assorted))) = .done top ∧
      Cursor.Reads top out none ∧
      Cursor.seek .all .everything (ofSource none (Store.ofData assorted)) = .done top' ∧
      Cursor.Reads top' (sums.map fun entry => (entry.1, entry.2.encode)) none ∧
      (((Store.within assorted Range.all.widened .everything).map Record.footprint).sum < 2 ^ 64 →
        ∀ entry ∈ sums, DateMap.decode entry.2.encode = .ok entry.2) ∧
      IsCut firstTwo filter out sums := by
  have hvalid : ∃ filter, Filter.ofConfig firstTwo = .ok filter := ⟨_, rfl⟩
  obtain ⟨filter, hfilter⟩ := hvalid
  have hdated : ∀ record ∈ Store.within assorted Range.all.widened .everything, record.IsDated := by
    decide
  exact ⟨filter, hfilter, hdated, reads_cut hfilter .all .everything hdated
    (ofSource none (Sieve.ofSource filter 1 (Store.ofData assorted)))
    (ofSource none (Store.ofData assorted)) rfl rfl ⟨rfl, rfl, rfl⟩ rfl⟩

end Rollup

end DatedCounts
