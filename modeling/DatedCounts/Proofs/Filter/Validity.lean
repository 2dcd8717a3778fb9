import DatedCounts.Proofs.Calendar.Gregorian
import DatedCounts.Proofs.Filter.Hint

/-!
# Valid windows

Settings are checked by the order of their dates in the calendar, but a filter compares bytes. Both orders are
the same on dates of four-digit years, and only those are read. So the two ends of a filter are eight digits
each and in order, the window between them is not empty, and some key is accepted.
-/

namespace DatedCounts

namespace Date

variable {s t : String} {a b : Date}

theorem compare_of_parse (hs : parse s = .ok a) (ht : parse t = .ok b) :
    compare a b = compare (Utf8.encode s.toList) (Utf8.encode t.toList) := by
  rw [← compare_digits (hasPlainYear_of_parse hs) (hasPlainYear_of_parse ht), digits_of_parse hs,
    digits_of_parse ht]

end Date

namespace Filter

variable {config : Config} {filter : Filter}

theorem Config.hasPlainYear_of_dateAt {which : WindowEnd} {s : Option String} {date : Date}
    (h : dateAt which s = .ok date) : date.HasPlainYear := by
  cases s with
  | none => cases h
  | some text => exact Date.hasPlainYear_of_parse (mapError_eq_ok.1 h)

/-- The window of a filter lies between the bytes of two dates in order. -/
theorem exists_dates_of_ofConfig (h : ofConfig config = .ok filter) : ∃ first last : Date,
    (first.HasPlainYear ∧ last.HasPlainYear) ∧ (compare first last).isLE ∧
      filter.first = Utf8.encode first.digits ∧ filter.last = Utf8.encode last.digits := by
  obtain ⟨first, last, hwindow, rfl⟩ := ofConfig_eq_ok h
  obtain ⟨hfirst, hlast, horder, _⟩ := Config.window_eq_ok.1 hwindow
  exact ⟨first, last, ⟨Config.hasPlainYear_of_dateAt hfirst, Config.hasPlainYear_of_dateAt hlast⟩,
    Ordering.ne_gt_iff_isLE.1 horder, rfl, rfl⟩

theorem first_isLE_last (h : ofConfig config = .ok filter) :
    (compare filter.first filter.last).isLE := by
  obtain ⟨first, last, ⟨hfirst, hlast⟩, horder, hfirst', hlast'⟩ := exists_dates_of_ofConfig h
  rw [hfirst', hlast', Date.compare_digits hfirst hlast]
  exact horder

theorem exists_check_eq_accept (h : ofConfig config = .ok filter) :
    ∃ key, filter.check key = .ok .accept := by
  have hnul := separator_notMem_of_mem h
  -- Where no datatypes are listed all are accepted, and the empty one will do.
  obtain ⟨datatype, haccepts, hdatatype⟩ : ∃ datatype, filter.acceptsDatatype datatype ∧
      Qualifier.separator ∉ datatype := by
    cases hlist : filter.datatypes.toList with
    | nil => exact ⟨[], acceptsDatatype_iff.2 (.inl hlist), List.not_mem_nil⟩
    | cons datatype rest =>
      have hmem : datatype ∈ filter.datatypes.toList := hlist ▸ List.mem_cons_self
      exact ⟨datatype, acceptsDatatype_iff.2 (.inr hmem), hnul datatype hmem⟩
  let key : Key := ⟨[], [], (Qualifier.raw datatype filter.first).toBytes, [], 0⟩
  have hparts : key.parts = .raw datatype filter.first := Qualifier.ofBytes_raw hdatatype _
  have hwindow := first_isLE_last h
  exact ⟨key, (check_eq_accept_iff hnul hparts).2
    (accepts_iff.2 ⟨datatype, filter.first, hparts, haccepts, Std.ReflCmp.isLE_rfl, hwindow⟩)⟩

/-- The texts that are read as dates are the eight digits of a day, and what is read of them is written as
they are. Each date of a year from 0 to 9999 is read back from what it is written as, and the dates are in the
order of the bytes of their texts. So a filter has a window of eight digits at both ends that are in order, and
accepts some key. -/
theorem window_nonempty :
    (∀ s, (∃ date, Date.parse s = .ok date) ↔ Date.NamesDay s) ∧
    (∀ s date, Date.parse s = .ok date → date.format = s) ∧
    (∀ date : Date, 0 ≤ date.year → date.year ≤ 9999 → Date.parse date.format = .ok date) ∧
    (∀ s t a b, Date.parse s = .ok a → Date.parse t = .ok b →
      compare a b = compare (Utf8.encode s.toList) (Utf8.encode t.toList)) ∧
    ∀ config filter, ofConfig config = .ok filter →
      Date.isShaped filter.first ∧ Date.isShaped filter.last ∧
        (compare filter.first filter.last).isLE ∧ ∃ key, filter.check key = .ok .accept := by
  refine ⟨fun s => Date.exists_parse_iff, fun s date h => (Date.parse_eq_ok_iff.1 h).2,
    fun date hlow hhigh => Date.parse_format ⟨hlow, hhigh⟩, fun s t a b => Date.compare_of_parse,
    fun config filter h => ?_⟩
  obtain ⟨first, last, ⟨hfirst, hlast⟩, _, hfirst', hlast'⟩ := exists_dates_of_ofConfig h
  have hshaped : Date.isShaped filter.first ∧ Date.isShaped filter.last := by
    rw [hfirst', hlast']
    exact ⟨Date.isShaped_digits hfirst, Date.isShaped_digits hlast⟩
  exact ⟨hshaped.1, hshaped.2, first_isLE_last h, exists_check_eq_accept h⟩

/-- Settings from a day of a year below 1000 to the leap day of a century. -/
def millennium : Config := ⟨∅, some "09990102", some "20000229", 0⟩

def early : Date := ⟨999, 1, 2, by decide⟩

def leapDay : Date := ⟨2000, 2, 29, by decide⟩

theorem window_nonempty_millennium :
    (Date.parse "09990102" = .ok early ∧ early.format = "09990102") ∧
    (Date.parse "20000229" = .ok leapDay ∧ Date.NamesDay "20000229" ∧
      Date.parse leapDay.format = .ok leapDay) ∧
    compare early leapDay = compare (Utf8.encode "09990102".toList) (Utf8.encode "20000229".toList) ∧
    ∃ filter, ofConfig millennium = .ok filter ∧
      Date.isShaped filter.first ∧ Date.isShaped filter.last ∧
        (compare filter.first filter.last).isLE ∧ ∃ key, filter.check key = .ok .accept := by
  obtain ⟨hnames, hformat, hparse, horder, hwindow⟩ := window_nonempty
  have hearly : Date.parse "09990102" = .ok early := by decide
  have hleap : Date.parse "20000229" = .ok leapDay := by decide
  have hvalid : ∃ filter, ofConfig millennium = .ok filter := ⟨_, rfl⟩
  obtain ⟨filter, hfilter⟩ := hvalid
  exact ⟨⟨hearly, hformat _ _ hearly⟩,
    ⟨hleap, (hnames _).1 ⟨_, hleap⟩, hparse leapDay (by decide) (by decide)⟩,
    horder _ _ _ _ hearly hleap, filter, hfilter, hwindow _ _ hfilter⟩

end Filter

end DatedCounts
