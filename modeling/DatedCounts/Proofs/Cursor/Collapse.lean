import DatedCounts.Proofs.Cursor.Staged

/-!
# Rollups on rollups

A rollup on another one reads what a single rollup over the same data does, if the lower one keeps labels
apart or both combine them by conjunction. An error of the lower rollup may come to light while the upper
one is still reading an earlier series, but there is an error in the stack just if there is one without
it.
-/

namespace DatedCounts

theorem Range.widened_widened (range : Range) : range.widened.widened = range.widened := by
  obtain ⟨start, stop⟩ := range
  cases start <;> rfl

/-- Whether the sums that a lower rollup makes can be summed up again by an upper one. -/
def Resumable (upper lower : Option Combiner) : Prop :=
  lower = none ∨ lower = some Label.conjoin ∧ upper = some Label.conjoin

namespace Rollup

theorem reading_of_fault (combiner : Option Combiner) (records : List Record) (e : Error) :
    (reading combiner records (some e)).2 ≠ none := by
  generalize hfault : some e = fault
  fun_induction reading combiner records fault with
  | case1 => simp [← hfault]
  | case2 | case3 => simp
  | case4 first rest group left habsorb out hout later ih => exact ih

section Series

variable {combiner : Option Combiner} {records : List Record}
  (hok : ∀ series ∈ seriesIn records, ∃ sums, Group.outcome combiner records series = .ok sums)
include hok

theorem decodes_of_ok : ∀ record ∈ records, record.Decodes := by
  intro record hrecord
  obtain ⟨sums, hsums⟩ := hok record.1.series (mem_seriesIn.2 ⟨record, hrecord, rfl⟩)
  exact (Group.outcome_eq_ok hsums).1 record (mem_seriesOf.2 ⟨hrecord, rfl⟩)

theorem isValid_of_ok (hconjoin : combiner = some Label.conjoin) :
    ∀ record ∈ records, Label.isValid record.1.visibility := by
  intro record hrecord
  obtain ⟨sums, hsums⟩ := hok record.1.series (mem_seriesIn.2 ⟨record, hrecord, rfl⟩)
  rw [hconjoin] at hsums
  obtain ⟨combined, hcombined, _⟩ := Group.records_some_eq_ok.1 (Group.outcome_eq_ok hsums).2
  apply Label.isValid_of_conjoin hcombined
  rw [Group.mem_keys_ofSeries, mem_labelsOf]
  exact ⟨record, hrecord, rfl, rfl⟩

end Series

/-- What a lower rollup reads without an error, an upper one reads as it reads the records below. -/
theorem reading_sums {upper lower : Option Combiner} (h : Resumable upper lower) {records sums : List Record}
    (hrecords : Ascending records) (hfits : (records.map Record.footprint).sum < 2 ^ 64)
    (hsums : reading lower records none = (sums, none)) :
    reading upper sums none = reading upper records none := by
  have hok := (reading_snd_eq_none_iff hrecords).1 (congrArg Prod.snd hsums)
  have hdecodes := decodes_of_ok hok
  have hperm : ∀ xs : List Record, xs.Perm ([] ++ xs) := fun xs => .refl xs
  rcases h with rfl | ⟨rfl, rfl⟩
  · obtain ⟨out, hreading, hout, hmem⟩ := reading_totals hrecords hdecodes
    obtain rfl : sums = out := congrArg Prod.fst (hsums.symm.trans hreading)
    have hstands := standsFor_totals hfits hout hmem
    apply reading_congr upper hout hrecords hstands.decodes hdecodes hstands.series
    intro record _
    rw [ofSeries_of_totals hfits hout hmem (hperm sums) (hperm records)]
  · have hvalid := isValid_of_ok hok rfl
    obtain ⟨out, hreading, hout, hmem⟩ := reading_joints hrecords hdecodes hvalid
    obtain rfl : sums = out := congrArg Prod.fst (hsums.symm.trans hreading)
    have hstands := standsFor_joints hfits hout hvalid hmem
    apply reading_congr _ hout hrecords hstands.decodes hdecodes hstands.series
    intro record _
    exact hstands.groups (hperm sums) (hperm records) (.inr ⟨rfl, hvalid⟩) record.1

theorem reading_of_lower_fault {upper lower : Option Combiner} (h : Resumable upper lower)
    {records : List Record} (hrecords : Ascending records) (hlower : (reading lower records none).2 ≠ none) :
    (reading upper records none).2 ≠ none := by
  rcases h with rfl | ⟨rfl, rfl⟩
  · intro hupper
    have hdecodes := decodes_of_ok ((reading_snd_eq_none_iff hrecords).1 hupper)
    obtain ⟨out, hreading, _⟩ := reading_totals hrecords hdecodes
    exact hlower (congrArg Prod.snd hreading)
  · exact hlower

/-- Over a store, a rollup on another one reads on to the end just if a single one does, and then both
read the same. The data is held in memory, so there are fewer than `2 ^ 64` bytes of it. -/
theorem reads_collapsed {upper lower : Option Combiner} (h : Resumable upper lower)
    {data : OrderedMap Key Bytes} (hfits : (data.toList.map Record.footprint).sum < 2 ^ 64)
    (range : Range) (projection : Projection) {stack : Rollup (Rollup Store)} {single : Rollup Store}
    (hstack : stack.source.source.data = data ∧ stack.source.combiner = lower ∧
      stack.combiner = upper) (hsingle : single.source.data = data ∧ single.combiner = upper) :
    ∃ out fault out' fault', Cursor.Opens (Cursor.seek range projection single) out fault ∧
      Cursor.Opens (Cursor.seek range projection stack) out' fault' ∧
      (fault' = none ↔ fault = none) ∧ (fault = none → out' = out) := by
  obtain ⟨hdata, rfl, rfl⟩ := hstack
  obtain ⟨hdata', hcombiner⟩ := hsingle
  have hascending := Store.within_ascending data range.widened projection
  have hlength := Store.length_within_le data range.widened projection
  have hfitsWithin : ((Store.within data range.widened projection).map Record.footprint).sum < 2 ^ 64 :=
    Nat.lt_of_le_of_lt (Record.footprint_filter_le _ _) hfits
  have hsingle := opens_seek_store hdata' range projection
  have hlower := opens_seek_store hdata range.widened projection
  simp only [Range.widened_widened] at hlower
  rw [hcombiner] at hsingle
  generalize Store.within data range.widened projection = records at *
  have hsize : (reading stack.source.combiner records none).1.length ≤ Cursor.size stack.source := by
    have hshorter := length_reading_le stack.source.combiner records none
    change _ ≤ stack.source.source.data.size
    rw [hdata]
    exact Nat.le_trans hshorter hlength
  refine ⟨_, _, _, _, hsingle, opens_seek hlower hsize, ?_⟩
  cases hread : reading stack.source.combiner records none with
  | mk sums fault =>
    cases fault with
    | none =>
      rw [reading_sums h hascending hfitsWithin hread]
      exact ⟨Iff.rfl, fun _ => rfl⟩
    | some e =>
      have hfailed := reading_of_lower_fault h hascending (by rw [hread]; exact Option.some_ne_none e)
      have hstack := reading_of_fault stack.combiner sums e
      exact ⟨⟨fun hnone => absurd hnone hstack, fun hnone => absurd hnone hfailed⟩,
        fun hnone => absurd hnone hfailed⟩

theorem reads_collapsed_labelled :
    let single : Rollup Store := ofSource (some Label.conjoin) (.ofData labelled)
    let stack : Rollup (Rollup Store) := ofSource (some Label.conjoin) single
    Resumable (some Label.conjoin) (some Label.conjoin) ∧
    (labelled.toList.map Record.footprint).sum < 2 ^ 64 ∧
    ∃ out fault out' fault', Cursor.Opens (Cursor.seek .all .everything single) out fault ∧
      Cursor.Opens (Cursor.seek .all .everything stack) out' fault' ∧
      (fault' = none ↔ fault = none) ∧ (fault = none → out' = out) := by
  intro single stack
  have hfits : (labelled.toList.map Record.footprint).sum < 2 ^ 64 := by decide
  have hresumable : Resumable (some Label.conjoin) (some Label.conjoin) := .inr ⟨rfl, rfl⟩
  exact ⟨hresumable, hfits, reads_collapsed hresumable hfits .all .everything ⟨rfl, rfl, rfl⟩ ⟨rfl, rfl⟩⟩

end Rollup

end DatedCounts
