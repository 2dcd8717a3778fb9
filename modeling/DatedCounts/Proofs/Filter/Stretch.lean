import DatedCounts.Proofs.Filter.Hint

/-!
# Stretches up to a hint

From a rejected key up to its hint, every raw key is rejected with the same hint. So a reader that steps
on from a rejected key instead of jumping comes to the hint too, or to a key that is not raw.
-/

namespace DatedCounts.Filter

variable {filter : Filter} {key other hint : Key} {datatype date found day : Bytes}

section Reasons

variable (hparts : key.parts = .raw datatype date) (hother : other.parts = .raw found day)
  (hle : (compare key other).isLE)
include hparts hother hle

theorem Rejects.datatype_of_between {next : Bytes} (hdatatype : ¬ filter.acceptsDatatype datatype)
    (hnext : filter.datatypes.next? datatype = some next) (hnul : Qualifier.separator ∉ next)
    (hlt : compare other (.firstOf key.row key.family (Qualifier.raw next filter.first).toBytes) = .lt) :
    filter.Rejects other found day
      (.firstOf key.row key.family (Qualifier.raw next filter.first).toBytes) := by
  obtain ⟨_, _, hleast⟩ := OrderedSet.next?_eq_some hnext
  obtain ⟨⟨hrow, hfamily⟩, hqualifier, hbefore⟩ := Key.between_firstOf hle hlt
  rw [Key.compare_qualifier hother hnul, Ordering.then_eq_lt, Std.compare_eq_iff_eq] at hbefore
  rw [← hrow, ← hfamily]
  by_cases hfound : filter.acceptsDatatype found
  · -- An accepted datatype below the hint is the one of the hint, with a date before the window.
    have habove := later_datatype hparts hdatatype hother hqualifier hfound
    rcases hbefore with hless | ⟨rfl, hday⟩
    · exact absurd hless (Std.OrientedCmp.not_lt_of_isLE (hleast found habove.1 habove.2))
    · exact .first hfound hday
  · have hless : compare found next = .lt := by
      rcases hbefore with hless | ⟨rfl, _⟩
      · exact hless
      · exact absurd (acceptsDatatype_iff.2 (.inr (OrderedSet.next?_eq_some hnext).1)) hfound
    refine .datatype hfound ((OrderedSet.next?_congr fun z hz => ?_).trans hnext)
    constructor
    · intro hz'
      rcases raw_isLE hparts hother hqualifier with hdatatype' | ⟨rfl, _⟩
      · exact Std.TransCmp.lt_trans hdatatype' hz'
      · exact hz'
    · exact fun hz' => Std.TransCmp.lt_of_lt_of_isLE hless (hleast z hz hz')

theorem Rejects.family_of_between (hdatatype : ¬ filter.acceptsDatatype datatype)
    (hnext : filter.datatypes.next? datatype = none)
    (hlt : compare other (.pastFamily key.row key.family) = .lt) :
    filter.Rejects other found day (.pastFamily key.row key.family) := by
  have hnone := OrderedSet.next?_eq_none hnext
  obtain ⟨⟨hrow, hfamily⟩, hqualifier⟩ := Key.between_pastFamily hle hlt
  rw [← hrow, ← hfamily]
  refine .family ?_ ((OrderedSet.next?_congr fun z hz => ?_).trans hnext)
  · intro hfound
    have habove := later_datatype hparts hdatatype hother hqualifier hfound
    exact hnone found habove.1 habove.2
  · refine iff_of_false (fun hz' => ?_) (hnone z hz)
    rcases raw_isLE hparts hother hqualifier with hdatatype' | ⟨rfl, _⟩
    · exact hnone z hz (Std.TransCmp.lt_trans hdatatype' hz')
    · exact hnone z hz hz'

theorem Rejects.first_of_between (hdatatype : filter.acceptsDatatype datatype)
    (hlt : compare other
      (.firstOf key.row key.family (Qualifier.raw datatype filter.first).toBytes) = .lt) :
    filter.Rejects other found day
      (.firstOf key.row key.family (Qualifier.raw datatype filter.first).toBytes) := by
  obtain ⟨⟨hrow, hfamily⟩, hqualifier, hbefore⟩ := Key.between_firstOf hle hlt
  have hnul : Qualifier.separator ∉ datatype := (Key.qualifier_eq hparts).2
  rw [Key.compare_qualifier hother hnul, Ordering.then_eq_lt, Std.compare_eq_iff_eq] at hbefore
  rw [← hrow, ← hfamily]
  rcases hbefore with hless | ⟨rfl, hday⟩
  · exact absurd hless (not_earlier hparts hother hqualifier)
  · exact .first hdatatype hday

theorem Rejects.last_of_between (hdatatype : filter.acceptsDatatype datatype)
    (hfirst : compare date filter.first ≠ .lt) (hdate : compare date filter.last = .gt)
    (hlt : compare other (.pastQualifiers key.row key.family (Qualifier.raw datatype []).toBytes) =
      .lt) :
    filter.Rejects other found day
      (.pastQualifiers key.row key.family (Qualifier.raw datatype []).toBytes) := by
  obtain ⟨⟨hrow, hfamily⟩, rfl, hday⟩ := between_pastQualifiers hparts hother hle hlt
  rw [← hrow, ← hfamily]
  refine .last hdatatype (fun hless => ?_) (Std.OrientedCmp.gt_of_lt ?_)
  · exact hfirst (Std.TransCmp.lt_of_isLE_of_lt hday hless)
  · exact Std.TransCmp.lt_of_lt_of_isLE (Std.OrientedCmp.lt_of_gt hdate) hday

end Reasons

/-- A raw key from a rejected key up to its hint is rejected with the same hint. -/
theorem check_of_between (hnul : ∀ accepted ∈ filter.datatypes.toList, Qualifier.separator ∉ accepted)
    (hcheck : filter.check key = .ok (.reject hint)) (hraw : other.parts.isRaw)
    (hle : (compare key other).isLE) (hlt : compare other hint = .lt) :
    filter.check other = .ok (.reject hint) := by
  obtain ⟨datatype, date, hparts, hrejects⟩ := check_eq_reject_iff.1 hcheck
  cases hother : other.parts with
  | aggregated =>
    rw [hother] at hraw
    cases hraw
  | raw found day =>
    refine check_eq_reject_iff.2 ⟨found, day, hother, ?_⟩
    cases hrejects with
    | datatype hdatatype hnext =>
      exact .datatype_of_between hparts hother hle hdatatype hnext
        (hnul _ (OrderedSet.next?_eq_some hnext).1) hlt
    | family hdatatype hnext => exact .family_of_between hparts hother hle hdatatype hnext hlt
    | first hdatatype _ => exact .first_of_between hparts hother hle hdatatype hlt
    | last hdatatype hfirst hdate =>
      exact .last_of_between hparts hother hle hdatatype hfirst hdate hlt

end DatedCounts.Filter
