import DatedCounts.Filter
import DatedCounts.Proofs.Calendar.Digits
import DatedCounts.Proofs.Fallible
import DatedCounts.Proofs.Ordered.Lookup

/-!
# What filters accept

Settings accept the keys of raw records of their datatypes whose dates lie between the two dates, both
included. A filter that is made of valid settings accepts the same keys.
-/

namespace DatedCounts.Filter

/-- Whether a key is that of a raw record of an accepted datatype and of a date in the window. -/
def Config.accepts (config : Config) (key : Key) : Bool :=
  match key.parts, config.first, config.last with
  | .raw datatype date, some first, some last =>
    (config.datatypes.isEmpty || config.datatypes.contains datatype) &&
      (compare (Utf8.encode first.toList) date).isLE && (compare date (Utf8.encode last.toList)).isLE
  | _, _, _ => false

def accepts (filter : Filter) (key : Key) : Bool :=
  match key.parts with
  | .raw datatype date =>
    filter.acceptsDatatype datatype && (compare filter.first date).isLE &&
      (compare date filter.last).isLE
  | .aggregated _ => false

theorem dateAt_eq_ok {which : WindowEnd} {s : Option String} {date : Date}
    (h : Config.dateAt which s = .ok date) : ∃ text, s = some text ∧ date.digits = text.toList := by
  cases s with
  | none => cases h
  | some text => exact ⟨text, rfl, Date.digits_of_parse (mapError_eq_ok.1 h)⟩

theorem Config.window_eq_ok {config : Config} {first last : Date} :
    config.window = .ok (first, last) ↔ dateAt .first config.first = .ok first ∧
      dateAt .last config.last = .ok last ∧ compare first last ≠ .gt ∧
      ∀ datatype ∈ config.datatypes.toList, isDatatype datatype := by
  have hvalid : (∀ datatype ∈ config.datatypes.toList, isDatatype datatype) ↔
      config.datatypes.toList.find? (fun datatype => !isDatatype datatype) = none := by
    simp [List.find?_eq_none]
  rw [hvalid]
  constructor
  · intro h
    obtain ⟨first', hfirst, h⟩ := bind_eq_ok.1 h
    obtain ⟨last', hlast, h⟩ := bind_eq_ok.1 h
    split at h
    · cases h
    · next horder =>
      split at h
      · cases h
      · next hfind =>
        cases h
        exact ⟨hfirst, hlast, horder, hfind⟩
  · rintro ⟨hfirst, hlast, horder, hfind⟩
    refine bind_eq_ok.2 ⟨first, hfirst, bind_eq_ok.2 ⟨last, hlast, ?_⟩⟩
    rw [if_neg horder, hfind]

theorem Config.separator_notMem {datatype : Bytes} (h : isDatatype datatype) :
    Qualifier.separator ∉ datatype := by
  have hparts : datatype ≠ [] ∧ 0 ∉ datatype := by simpa [isDatatype] using h
  exact hparts.2

theorem ofConfig_eq_ok {config : Config} {filter : Filter} (h : ofConfig config = .ok filter) :
    ∃ first last, config.window = .ok (first, last) ∧
      filter = ⟨config.datatypes, Utf8.encode first.digits, Utf8.encode last.digits⟩ := by
  obtain ⟨⟨first, last⟩, hwindow, rfl⟩ := map_eq_ok.1 h
  exact ⟨first, last, hwindow, rfl⟩

/-- The datatypes of a filter that is made of settings have no NUL in them. -/
theorem separator_notMem_of_mem {config : Config} {filter : Filter}
    (h : ofConfig config = .ok filter) :
    ∀ datatype ∈ filter.datatypes.toList, Qualifier.separator ∉ datatype := by
  obtain ⟨first, last, hwindow, rfl⟩ := ofConfig_eq_ok h
  intro datatype hmem
  exact Config.separator_notMem ((Config.window_eq_ok.1 hwindow).2.2.2 datatype hmem)

theorem accepts_eq {config : Config} {filter : Filter} (h : ofConfig config = .ok filter) (key : Key) :
    filter.accepts key = config.accepts key := by
  obtain ⟨first, last, hwindow, rfl⟩ := ofConfig_eq_ok h
  obtain ⟨hfirst, hlast, _⟩ := Config.window_eq_ok.1 hwindow
  obtain ⟨firstText, hfirstText, hfirstDigits⟩ := dateAt_eq_ok hfirst
  obtain ⟨lastText, hlastText, hlastDigits⟩ := dateAt_eq_ok hlast
  rw [accepts, Config.accepts, hfirstText, hlastText, hfirstDigits, hlastDigits]
  cases key.parts <;> rfl

end DatedCounts.Filter
