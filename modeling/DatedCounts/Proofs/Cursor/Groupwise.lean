import DatedCounts.Proofs.Cursor.Rollup
import DatedCounts.Proofs.Ordered.Lookup

/-!
# What a rollup reads, series by series

The records of a series stand next to one another, so a rollup takes the series of the records below it
one by one and in order, and all records of a series at once. Each series comes to an outcome of its own:
its sums or an error. A rollup reads the sums up to the first error, which ends the pass.
-/

namespace DatedCounts

/-! ### Series of records -/

def seriesOf (series : Series) (records : List Record) : List Record :=
  records.filter fun record => record.1.series = series

theorem mem_seriesOf {series : Series} {records : List Record} {record : Record} :
    record ∈ seriesOf series records ↔ record ∈ records ∧ record.1.series = series := by
  rw [seriesOf, List.mem_filter, decide_eq_true_eq]

def apartFrom (series : Series) (records : List Record) : List Record :=
  records.filter fun record => !decide (record.1.series = series)

theorem mem_apartFrom {series : Series} {records : List Record} {record : Record} :
    record ∈ apartFrom series records ↔ record ∈ records ∧ record.1.series ≠ series := by
  rw [apartFrom, List.mem_filter, Bool.not_eq_true', decide_eq_false_iff_not]

theorem seriesOf_apartFrom {series other : Series} (h : series ≠ other) (records : List Record) :
    seriesOf series (apartFrom other records) = seriesOf series records := by
  rw [seriesOf, seriesOf, apartFrom, List.filter_filter]
  refine List.filter_congr fun record _ => ?_
  by_cases hseries : record.1.series = series
  · simp [hseries, h]
  · simp [hseries]

/-- The series of some records, each of them once and in order. -/
def seriesIn (records : List Record) : List Series :=
  (OrderedSet.ofList (records.map (·.1.series))).toList

theorem mem_seriesIn {series : Series} {records : List Record} :
    series ∈ seriesIn records ↔ ∃ record ∈ records, record.1.series = series := by
  rw [seriesIn, OrderedSet.mem_ofList, List.mem_map]

theorem seriesIn_ascending (records : List Record) :
    (seriesIn records).Pairwise fun a b => compare a b = .lt :=
  OrderedSet.ascending _

section Split

variable {records : List Record} {before after : List Series} {bad : Series}
  (hsplit : seriesIn records = before ++ bad :: after)
include hsplit

theorem before_ascending : before.Pairwise fun a b => compare a b = .lt := by
  have hascending := seriesIn_ascending records
  rw [hsplit] at hascending
  exact (List.pairwise_append.1 hascending).1

theorem mem_before_iff {series : Series} :
    series ∈ before ↔ series ∈ seriesIn records ∧ compare series bad = .lt := by
  have hascending := seriesIn_ascending records
  rw [hsplit, List.pairwise_append, List.pairwise_cons] at hascending
  obtain ⟨_, ⟨hafter, _⟩, hbefore⟩ := hascending
  rw [hsplit, List.mem_append, List.mem_cons]
  constructor
  · exact fun h => ⟨.inl h, hbefore series h bad List.mem_cons_self⟩
  · rintro ⟨h | rfl | h, hlt⟩
    · exact h
    · exact absurd rfl (ne_of_compare_lt hlt)
    · exact absurd hlt (Std.OrientedCmp.not_lt_of_lt (hafter series h))

end Split

theorem seriesIn_congr {xs ys : List Record} (h : ∀ series,
    (∃ record ∈ xs, record.1.series = series) ↔ ∃ record ∈ ys, record.1.series = series) :
    seriesIn xs = seriesIn ys := by
  apply eq_of_pairwise_lt (seriesIn_ascending xs) (seriesIn_ascending ys)
  intro series
  rw [mem_seriesIn, mem_seriesIn, h]

section First

variable {first : Record} {rest : List Record} (hrecords : Ascending (first :: rest))
include hrecords

private theorem isLE_of_mem {record : Record} (h : record ∈ first :: rest) :
    (compare first.1 record.1).isLE := by
  rcases List.mem_cons.1 h with rfl | h
  · exact Std.ReflCmp.isLE_rfl
  · exact Ordering.isLE_of_eq_lt ((List.pairwise_cons.1 hrecords).1 record h)

theorem seriesOf_append_apartFrom :
    seriesOf first.1.series (first :: rest) ++ apartFrom first.1.series (first :: rest) =
      first :: rest := by
  let inFirst : Record → Bool := fun record => record.1.series = first.1.series
  have hfront : (first :: rest).Pairwise fun a b => inFirst b → inFirst a := by
    refine hrecords.imp_of_mem fun {a b} ha _ hlt hb => ?_
    have hbetween := Key.series_eq_of_between (isLE_of_mem hrecords ha) (Ordering.isLE_of_eq_lt hlt)
      (of_decide_eq_true hb).symm
    exact decide_eq_true hbetween
  have hback : (first :: rest).Pairwise fun a b => !inFirst a → !inFirst b := by
    refine hfront.imp fun {a b} hab => ?_
    cases ha : inFirst a <;> cases hb : inFirst b <;> simp_all
  have hapart := dropWhile_eq_filter hback
  simp only [Bool.not_not] at hapart
  change (first :: rest).filter inFirst ++ (first :: rest).filter (fun r => !inFirst r) = _
  rw [← takeWhile_eq_filter hfront, ← hapart, List.takeWhile_append_dropWhile]

/-- The series of the first record comes before all others. -/
theorem seriesIn_cons : seriesIn (first :: rest) =
    first.1.series :: seriesIn (apartFrom first.1.series (first :: rest)) := by
  apply eq_of_pairwise_lt (seriesIn_ascending _)
  · refine List.pairwise_cons.2 ⟨fun series hseries => ?_, seriesIn_ascending _⟩
    obtain ⟨record, hrecord, rfl⟩ := mem_seriesIn.1 hseries
    obtain ⟨hmem, hne⟩ := mem_apartFrom.1 hrecord
    exact Key.series_lt_of_isLE (isLE_of_mem hrecords hmem) hne.symm
  · intro series
    simp only [List.mem_cons, mem_seriesIn, mem_apartFrom]
    grind

end First

/-! ### Outcomes of series -/

def Record.fault? (record : Record) : Option Error :=
  match record.counts with
  | .ok _ => none
  | .error e => some e

theorem Record.fault?_eq_some {record : Record} {e : Error} :
    record.fault? = some e ↔ record.counts = .error e := by
  rw [fault?]
  cases record.counts <;> simp

theorem Record.fault?_eq_none {record : Record} : record.fault? = none ↔ record.Decodes := by
  rw [fault?, decodes_iff]
  cases record.counts <;> simp

namespace Group

/-- A group absorbs records of its own up to the first that does not decode. -/
theorem absorb_members {group : Group} {members left : List Record}
    (hmembers : ∀ member ∈ members, group.holds member.1)
    (hleft : ∀ record ∈ left.head?, group.holds record.1 = false) :
    group.absorb (members ++ left) none =
      match members.findSome? Record.fault? with
      | some e => .error e
      | none => .ok (group.addAll members, left) := by
  induction members generalizing group with
  | nil =>
    cases left with
    | nil => rfl
    | cons record rest =>
      rw [List.nil_append, absorb, hleft record (by simp)]
      rfl
  | cons member members ih =>
    have hholds := hmembers member List.mem_cons_self
    rw [List.cons_append, absorb, if_pos hholds, List.findSome?_cons, Record.fault?]
    cases hcounts : member.counts with
    | error e => rfl
    | ok counts =>
      have hheld := Record.held_of_counts hcounts
      simp only [ite_self]
      rw [← hheld]
      exact ih (fun other hother => hmembers other (List.mem_cons_of_mem _ hother)) hleft

@[simp] theorem series_ofSeries (series : Series) (records : List Record) :
    (ofSeries series records).series = series :=
  series_addAll _ _

theorem absorb_first {first : Record} {rest : List Record} (hrecords : Ascending (first :: rest)) :
    (ofKey first.1).absorb (first :: rest) none =
      match (seriesOf first.1.series (first :: rest)).findSome? Record.fault? with
      | some e => .error e
      | none => .ok (ofSeries first.1.series (first :: rest),
          apartFrom first.1.series (first :: rest)) := by
  have hmembers : ∀ member ∈ seriesOf first.1.series (first :: rest),
      (ofKey first.1).holds member.1 := fun member hmember =>
    holds_iff.2 (mem_seriesOf.1 hmember).2
  have hleft : ∀ record ∈ (apartFrom first.1.series (first :: rest)).head?,
      (ofKey first.1).holds record.1 = false := by
    intro record hrecord
    have hne := (mem_apartFrom.1 (List.mem_of_mem_head? hrecord)).2
    rwa [Bool.eq_false_iff, ne_eq, holds_iff]
  have habsorb := absorb_members hmembers hleft
  rw [seriesOf_append_apartFrom hrecords] at habsorb
  exact habsorb

/-- What becomes of a series among some records: its sums, or the error of its first record that does not
decode, or else that of the combiner. -/
def outcome (combiner : Option Combiner) (records : List Record) (series : Series) :
    Except Error (List Record) :=
  match (seriesOf series records).findSome? Record.fault? with
  | some e => .error e
  | none => (ofSeries series records).records combiner

theorem outcome_congr {xs ys : List Record} {series : Series}
    (h : seriesOf series xs = seriesOf series ys) (combiner : Option Combiner) :
    outcome combiner xs series = outcome combiner ys series := by
  have hgroup : ofSeries series xs = ofSeries series ys :=
    congrArg (addAll ⟨series.row, series.family, series.datatype, ∅⟩) h
  rw [outcome, outcome, h, hgroup]

theorem map_outcome_apartFrom (combiner : Option Combiner) (series : Series) (records : List Record) :
    (seriesIn (apartFrom series records)).map (outcome combiner (apartFrom series records)) =
      (seriesIn (apartFrom series records)).map (outcome combiner records) := by
  refine List.map_congr_left fun other hother => ?_
  obtain ⟨record, hrecord, rfl⟩ := mem_seriesIn.1 hother
  exact outcome_congr (seriesOf_apartFrom (mem_apartFrom.1 hrecord).2 records) combiner

theorem outcome_of_decodes {records : List Record} {series : Series}
    (h : ∀ record ∈ seriesOf series records, record.Decodes) (combiner : Option Combiner) :
    outcome combiner records series = (ofSeries series records).records combiner := by
  have hnone : (seriesOf series records).findSome? Record.fault? = none :=
    List.findSome?_eq_none_iff.2 fun record hrecord => Record.fault?_eq_none.2 (h record hrecord)
  rw [outcome, hnone]

end Group

namespace Rollup

/-- The sums of some outcomes up to the first error, and that error. -/
def yields : List (Except Error (List Record)) → List Record × Option Error
  | [] => ([], none)
  | .error e :: _ => ([], some e)
  | .ok sums :: later => (sums ++ (yields later).1, (yields later).2)

theorem yields_ok (parts : List (List Record)) :
    yields (parts.map .ok) = (parts.flatten, none) := by
  induction parts with
  | nil => rfl
  | cons part parts ih => rw [List.map_cons, yields, ih, List.flatten_cons]

theorem yields_error (parts : List (List Record)) (e : Error)
    (later : List (Except Error (List Record))) :
    yields (parts.map .ok ++ .error e :: later) = (parts.flatten, some e) := by
  induction parts with
  | nil => rfl
  | cons part parts ih => rw [List.map_cons, List.cons_append, yields, ih, List.flatten_cons]

/-- Of records in order a rollup reads what the outcomes of their series yield. -/
theorem reading_eq_yields (combiner : Option Combiner) {records : List Record}
    (hrecords : Ascending records) : reading combiner records none =
      yields ((seriesIn records).map (Group.outcome combiner records)) := by
  induction hn : records.length using Nat.strongRecOn generalizing records with
  | ind n ih =>
    cases records with
    | nil =>
      rw [reading]
      rfl
    | cons first rest =>
      rw [reading_cons, Group.absorb_first hrecords, seriesIn_cons hrecords, List.map_cons,
        Group.outcome]
      cases hfault : (seriesOf first.1.series (first :: rest)).findSome? Record.fault? with
      | some e => rfl
      | none =>
        simp only
        cases hout : (Group.ofSeries first.1.series (first :: rest)).records combiner with
        | error e => rfl
        | ok out =>
          have habsorb := Group.absorb_first hrecords
          rw [hfault] at habsorb
          have hshorter := (Group.absorb_ofKey habsorb).2.2
          have hapart : Ascending (apartFrom first.1.series (first :: rest)) := hrecords.filter _
          have hlater := ih _ (hn ▸ hshorter) hapart rfl
          -- The other series come to the same outcomes among all records as among those left over.
          rw [Group.map_outcome_apartFrom] at hlater
          simp only [yields, hlater]

end Rollup

end DatedCounts
